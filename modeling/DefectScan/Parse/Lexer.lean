import DefectScan.Grammar.Table
import DefectScan.Parse.Cursor
import DefectScan.Parse.Shape

/-!
# Tokens of C

The next token depends on what the text may go on with: among the terminals that are expected, the
longest match is taken. A keyword is a keyword only where it is expected and a name elsewhere.

Between tokens stand blanks and line continuations. A line continuation is no blank before the end
of the text.
-/

namespace DefectScan.Parse

open DefectScan.Grammar Shape

/-! ## Shapes of the token classes -/

def digitShape : Shape := one .digit

def hexDigitShape : Shape := one .hexDigit

/-- A character written as its code point. -/
def universalCharacter : Shape :=
  any [all [text "\\u", times 4 hexDigitShape], all [text "\\U", times 8 hexDigitShape]]

def identifierShape : Shape :=
  seq (any [one .nameStart, universalCharacter]) (star (any [one .nameRest, universalCharacter]))

/-- Digits in groups that are set off by single quotes. -/
def digitGroups (d : Shape) : Shape := seq (plus d) (star (seq (char '\x27') (plus d)))

def signShape : Shape := opt (oneOf ['-', '+'])

def numberShape : Shape :=
  let hexMark := seq (char '0') (oneOf ['x', 'X'])
  let binaryMark := seq (char '0') (oneOf ['b', 'B'])
  let decimal := digitGroups digitShape
  let hexadecimal := digitGroups hexDigitShape
  all
    [signShape, opt (any [hexMark, binaryMark]),
      any
        [seq (any [decimal, seq binaryMark decimal, seq hexMark hexadecimal])
            (opt (seq (char '.') (opt hexadecimal))),
          seq (char '.') decimal],
      opt (seq (oneOf ['e', 'E', 'p', 'P']) (opt (seq signShape hexadecimal))),
      star (oneOf ['u', 'U', 'l', 'L', 'w', 'W', 'f', 'F', 'b', 'B', 'd', 'D'])]

def lineBreak : Shape := seq (opt (char '\r')) (char '\n')

def directiveMark : Shape := seq (char '#') (star (oneOf [' ', '\t']))

def commentShape : Shape :=
  let toLineEnd := star (any
    [seq (plus (char '\\')) (any [noneOf ['\n'], lineBreak]), noneOf ['\\', '\n']])
  let stars := plus (char '*')
  let toMark := all
    [star (noneOf ['*']), stars, star (all [noneOf ['/', '*'], star (noneOf ['*']), stars]),
      char '/']
  any [seq (text "//") toLineEnd, seq (text "/*") toMark]

def escapeShape : Shape :=
  seq (char '\\') (any
    [noneOf ['x', 'u', 'U'], seq digitShape (seq digitShape (opt digitShape)),
      all [char 'x', hexDigitShape, opt hexDigitShape, opt hexDigitShape, opt hexDigitShape],
      seq (char 'u') (times 4 hexDigitShape), seq (char 'U') (times 8 hexDigitShape)])

def shapeOf : LexemeClass → Shape
  | .identifier => identifierShape
  | .number => numberShape
  | .directive d => seq directiveMark (text d.word)
  | .otherDirective =>
    all [directiveMark, one .plainAlphanumeric, star (any [one .plainAlphanumeric, char '_'])]
  | .directiveText =>
    seq (one .visible) (star (any
      [noneOf ['/', '\n'], seq (char '/') (noneOf ['*']), seq (char '\\') lineBreak]))
  | .directiveEnd => lineBreak
  | .conditionEnd => char '\n'
  | .macroParen => char '('
  | .character => noneOf ['\n', '\x27']
  | .stringText => plus (noneOf ['\\', '"', '\n'])
  | .escape => escapeShape
  | .systemPath => all [char '<', star (any [noneOf ['>', '\n'], text "\\>"]), char '>']
  | .primitiveType | .trueWord | .falseWord => never
  | .comment => commentShape

/-! ## The next token -/

/-- How many characters of the text a literal takes, if it stands there. -/
def literalLength (mark text : List Char) : Option Nat :=
  if mark.isPrefixOf text then some mark.length else none

/-- A match of a terminal at a place. -/
structure Candidate where
  rank : Int
  length : Nat
  preference : Nat
  terminal : Nat

/-- Whether a later candidate is taken instead of an earlier one. -/
def Candidate.better (new old : Candidate) : Bool :=
  old.rank < new.rank || (old.rank = new.rank && (old.length < new.length ||
    (old.length = new.length && old.preference < new.preference)))

/-- How a terminal matches at the start of a text; `blank` says that blanks were skipped. -/
def candidate (t : Nat) (x : Terminal) (isKeyword blank : Bool) (text : List Char) :
    Option Candidate :=
  match x with
  | .endOfInput => none
  | .literal mark =>
    if isKeyword then none
    else (literalLength mark.toList text).map fun n => ⟨0, n, 2, t⟩
  | .lexeme c =>
    if c.adjacent && blank then none
    else ((shapeOf c).longest text).map fun n => ⟨c.rank, n, c.preference, t⟩

/-- The best match at the start of a text. -/
def bestCandidate (g : Table) (expected : TerminalSet) (blank : Bool) (text : List Char) :
    Option Candidate :=
  go g.terminals.toList 0 none
where
  go : List Terminal → Nat → Option Candidate → Option Candidate
  | [], _, best => best
  | x :: xs, t, best =>
    if TerminalSet.has expected t then
      match candidate t x (TerminalSet.has g.keywordSet t) blank text, best with
      | none, _ => go xs (t + 1) best
      | some new, none => go xs (t + 1) (some new)
      | some new, some old => go xs (t + 1) (if new.better old then some new else best)
    else go xs (t + 1) best

/-- A terminal with the place where it stands. -/
structure Found where
  terminal : Nat
  start : Cursor
  length : Nat

def Found.stop (f : Found) : Cursor := f.start.skip f.length

def Found.word (f : Found) : String := String.ofList (f.start.rest.take f.length)

/-- A line continuation takes two or three characters. -/
def continuationLength : List Char → Option Nat
  | '\\' :: '\n' :: _ => some 2
  | '\\' :: '\r' :: '\n' :: _ => some 3
  | _ => none

/-- The length of a blank or a line continuation. -/
def blankLength (text : List Char) : Option Nat :=
  match text with
  | [] => none
  | c :: _ => if isSeparator c then some 1 else continuationLength text

/-- Looks for a token place by place, as long as blanks stand between. -/
def scanFrom (g : Table) (expected : TerminalSet) (blank continued : Bool) (c : Cursor) :
    Nat → Option Found
  | 0 => none
  | fuel + 1 =>
    if c.rest.isEmpty then
      if TerminalSet.has expected 0 && !continued then some ⟨0, c, 0⟩ else none
    else
      match bestCandidate g expected blank c.rest with
      | some m => some ⟨m.terminal, c, m.length⟩
      | none =>
        match blankLength c.rest with
        | some n =>
          scanFrom g expected true (continued || (continuationLength c.rest).isSome) (c.skip n) fuel
        | none => none

/-- The next token among the expected ones. -/
def scan (g : Table) (expected : TerminalSet) (c : Cursor) : Option Found :=
  let expected :=
    if expected &&& g.keywordSet = 0 then expected else expected ||| .single g.identifier
  scanFrom g expected false false c (c.rest.length + 1)

/-- Moves over blanks and line continuations. -/
def skipBlanks : Nat → Cursor → Cursor
  | 0, c => c
  | fuel + 1, c =>
    match blankLength c.rest with
    | some n => skipBlanks fuel (c.skip n)
    | none => c

/-- The end of a stretch of text that no token fits. -/
def strayEnd (g : Table) : Nat → Cursor → Cursor
  | 0, c => c
  | fuel + 1, c =>
    if c.rest.isEmpty then c
    else
      let next := c.skip 1
      if (scan g g.skippable next).isSome then next
      else strayEnd g fuel (next.skip (next.rest.takeWhile isSeparator).length)

/-- What comes next in a text: a token, or a stretch that is none. -/
structure Token where
  /-- The terminal, or nothing for a stretch that fits no token. -/
  terminal : Option Nat
  start : Cursor
  stop : Cursor
  /-- The token has the spelling of a keyword. -/
  isKeyword : Bool

/-- The next token in a state that expects some terminals. Where none of them stands, any terminal
will do. -/
def nextToken (g : Table) (expected : TerminalSet) (c : Cursor) : Token :=
  match (scan g expected c).orElse fun _ => scan g g.skippable c with
  | some f =>
    match if f.terminal = g.identifier then g.keywords.get? f.word else none with
    | some k =>
      ⟨some (if TerminalSet.has expected k then k else g.identifier), f.start, f.stop, true⟩
    | none => ⟨some f.terminal, f.start, f.stop, false⟩
  | none =>
    let start := skipBlanks c.rest.length c
    ⟨none, start, strayEnd g start.rest.length start, false⟩

end DefectScan.Parse
