import DefectScan.Text.Identifier

/-!
# Shapes of tokens

A shape is a regular expression over classes of characters. The longest match is found by taking
derivatives: `s.after c` is the shape of what may follow `c` in a text of shape `s`, and a text has
the shape exactly if its last derivative accepts the empty text.

Derivatives are simplified on the way, and an alternative is never listed twice, so that a long
token does not make them grow.
-/

namespace DefectScan.Parse

/-- A class of characters. -/
inductive CharClass
  | these (cs : List Char)
  | allBut (cs : List Char)
  | digit
  | hexDigit
  /-- Letters and digits without accents. -/
  | plainAlphanumeric
  | nameStart
  | nameRest
  /-- Everything that does not separate tokens. -/
  | visible
deriving DecidableEq

/-- The white space that may separate tokens. -/
def isSeparator (c : Char) : Bool := ('\t' ≤ c && c ≤ '\r') || c == ' '

def CharClass.has : CharClass → Char → Bool
  | these cs, c => cs.contains c
  | allBut cs, c => !cs.contains c
  | digit, c => c.isDigit
  | hexDigit, c => c.isDigit || ('a' ≤ c && c ≤ 'f') || ('A' ≤ c && c ≤ 'F')
  | plainAlphanumeric, c => c.isAlphanum
  | nameStart, c => Text.opensIdentifier c || c == '$' || c == '_'
  | nameRest, c => Text.continuesIdentifier c || c == '$'
  | visible, c => !isSeparator c

inductive Shape
  | never
  | empty
  | one (p : CharClass)
  | seq (a b : Shape)
  | alt (a b : Shape)
  | star (a : Shape)
deriving DecidableEq

namespace Shape

/-- A sequence, simplified where a part is trivial. -/
def andThen : Shape → Shape → Shape
  | never, _ => never
  | empty, b => b
  | _, never => never
  | a, b => seq a b

/-- Whether a shape is among the alternatives of another. -/
def offers : Shape → Shape → Bool
  | alt a b, s => a.offers s || b.offers s
  | a, s => a = s

/-- A choice; an alternative that is already there is not added. -/
def orElse (a : Shape) : Shape → Shape
  | never => a
  | alt b c => orElse (orElse a b) c
  | b => if a = never then b else if a.offers b then a else alt a b

def acceptsEmpty : Shape → Bool
  | never => false
  | empty => true
  | one _ => false
  | seq a b => a.acceptsEmpty && b.acceptsEmpty
  | alt a b => a.acceptsEmpty || b.acceptsEmpty
  | star _ => true

/-- The shape of what follows a first character. -/
def after (c : Char) : Shape → Shape
  | never => never
  | empty => never
  | one p => if p.has c then empty else never
  | seq a b =>
    let first := distribute (a.after c) b
    if a.acceptsEmpty then orElse first (b.after c) else first
  | alt a b => orElse (a.after c) (b.after c)
  | star a => distribute (a.after c) (star a)
where
  /-- A choice before a sequence becomes a choice of sequences. -/
  distribute : Shape → Shape → Shape
  | alt a b, s => orElse (distribute a s) (distribute b s)
  | a, s => andThen a s

/-- The length of the longest match at the start of a text; `count` characters have been read and
`best` is the longest match among them. -/
def longestFrom (s : Shape) (count : Nat) (best : Option Nat) : List Char → Option Nat
  | [] => if s.acceptsEmpty then some count else best
  | c :: rest =>
    let best := if s.acceptsEmpty then some count else best
    match s.after c with
    | never => best
    | s' => longestFrom s' (count + 1) best rest

/-- The length of the longest start of a text that has the shape. -/
def longest (s : Shape) (text : List Char) : Option Nat := longestFrom s 0 none text

/-! ## Building shapes -/

def char (c : Char) : Shape := one (.these [c])

def noneOf (cs : List Char) : Shape := one (.allBut cs)

def oneOf (cs : List Char) : Shape := one (.these cs)

def all : List Shape → Shape
  | [] => empty
  | [a] => a
  | a :: rest => seq a (all rest)

def any : List Shape → Shape
  | [] => never
  | [a] => a
  | a :: rest => alt a (any rest)

def opt (a : Shape) : Shape := alt a empty

def plus (a : Shape) : Shape := seq a (star a)

def text (s : String) : Shape := all (s.toList.map char)

/-- Exactly `n` times. -/
def times : Nat → Shape → Shape
  | 0, _ => empty
  | n + 1, a => seq a (times n a)

end Shape

end DefectScan.Parse
