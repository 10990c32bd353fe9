import DefectScan.Finding
import DefectScan.Pattern
import DefectScan.Text.Alphanumeric

/-!
# The lexical detector

One rule for each of five categories: a pattern, and a look at the text around each occurrence that
may discard it. The rules know no structure. A release in another function does not count, and one
that is hidden in a comment does.
-/

namespace DefectScan.Lexical

open Pattern

/-! ## Patterns -/

/-- `malloc ( ... ) ... ;` with no semicolon in between. -/
def allocation : Pattern where
  startsWord := true
  read text := do
    let inside ← mark "(" (← word "malloc" text)
    match inside.dropWhile (· ≠ ';') with
    | [] => none
    | _ :: rest => if (inside.takeWhile (· ≠ ';')).contains ')' then some ⟨[], rest⟩ else none

/-- What follows the last closing parenthesis before the next semicolon. -/
def afterLastClose (text : List Char) : Option (List Char) :=
  let inside := text.takeWhile (· ≠ ';')
  let tail := inside.reverse.takeWhile (· ≠ ')')
  if tail.length < inside.length then some (text.drop (inside.length - tail.length)) else none

/-- The functions that write without a bound. -/
def unboundedWriters : List String := ["strcpy", "strcat", "gets", "scanf"]

/-- A call of a function that writes without a bound. -/
def unboundedWrite : Pattern where
  startsWord := true
  read text := unboundedWriters.findSome? fun f => do
    let rest ← afterLastClose (← mark "(" (← word f text))
    return ⟨[], rest⟩

/-- `variable -> member`; the variable is captured. -/
def memberAccess : Pattern where
  startsWord := false
  read text := do
    let (variable_, rest) ← someWord text
    let (_, rest) ← someWord (blanks (← mark "->" rest))
    return ⟨[variable_], rest⟩

/-- `int variable ;`; the variable is captured. -/
def bareDeclaration : Pattern where
  startsWord := true
  read text := do
    let (variable_, rest) ← someWord (← someBlanks (← word "int" text))
    let rest ← mark ";" rest
    return ⟨[variable_], rest⟩

/-- `while (1)` or `while (true)`. -/
def endlessWhile : Pattern where
  startsWord := true
  read text := do
    let text ← mark "(" (← word "while" text)
    let rest ← mark ")" (← (mark "1" text).orElse fun _ => mark "true" text)
    return ⟨[], rest⟩

/-- `for (;;)`. -/
def endlessFor : Pattern where
  startsWord := true
  read text := do
    let rest ← mark ")" (← mark ";" (← mark ";" (← mark "(" (← word "for" text))))
    return ⟨[], rest⟩

def endlessLoop : Pattern where
  startsWord := true
  read text := (endlessWhile.read text).orElse fun _ => endlessFor.read text

/-! ## What stands around an occurrence -/

/-- Whether a text holds another. -/
def holds (part : List Char) : List Char → Bool
  | [] => part.isEmpty
  | c :: cs => part.isPrefixOf (c :: cs) || holds part cs

/-- Something is released before the block ends. -/
def isReleased (o : Occurrence) : Bool := holds "free".toList (o.after.takeWhile (· ≠ '\x7d'))

/-- Something is assigned before the next statement ends. -/
def isAssigned (o : Occurrence) : Bool := (o.after.takeWhile (· ≠ ';')).contains '='

def isNameChar (c : Char) : Bool := Text.isAlphanumeric c || c = '_'

/-- Whether a text goes on with a test of what stands before it. -/
def testsPrevious (text : List Char) : Bool :=
  let rest := blanks text
  let rest := match word "!=" rest with
    | some r =>
      match word "NULL" (blanks r) with
      | some r => blanks r
      | none => rest
    | none => rest
  "&&".toList.isPrefixOf rest

/-- The places in a text where a name stands, from left to right and without overlap: what stands
directly before each and what follows it. -/
def places (name : List Char) (before : Option Char) (text : List Char) :
    List (Option Char × List Char) :=
  match text with
  | [] => []
  | c :: cs =>
    match literal name (c :: cs) with
    | some rest =>
      if rest.length < (c :: cs).length then (before, rest) :: places name name.getLast? rest
      else places name (some c) cs
    | none => places name (some c) cs
termination_by text.length
decreasing_by
  · assumption
  · simp
  · simp

/-- The captured variable is tested earlier on the line. -/
def isGuarded (o : Occurrence) : Bool :=
  match o.captured with
  | name :: _ =>
    (places name none o.lineBefore).any fun (before, rest) =>
      !(before.map isNameChar).getD false && testsPrevious rest
  | [] => false

/-! ## Rules -/

structure Rule where
  category : Category
  pattern : Pattern
  discards : Occurrence → Bool

/-- The rules in the order of reporting. -/
def rules : List Rule :=
  [⟨.memoryLeak, allocation, isReleased⟩,
    ⟨.bufferOverflow, unboundedWrite, fun _ => false⟩,
    ⟨.nullPointer, memberAccess, isGuarded⟩,
    ⟨.uninitializedVar, bareDeclaration, isAssigned⟩,
    ⟨.infiniteLoop, endlessLoop, fun _ => false⟩]

/-- The finding on an occurrence. -/
def Rule.finding (r : Rule) (o : Occurrence) : Finding :=
  .atLine r.category o.line
    ("Potential " ++ r.category.name ++ " detected at line " ++ toString o.line) .lexical

def Rule.findings (r : Rule) (text : List Char) : List Finding :=
  ((r.pattern.occurrences text).filter fun o => !r.discards o).map r.finding

/-- The findings on a text, rule by rule. -/
def scan (text : String) : List Finding := rules.flatMap fun r => r.findings text.toList

end DefectScan.Lexical
