import DefectScan.Decimal.Format

/-!
# JSON values and their text

Objects keep the order of their members. Numbers are whole or real; a real number that is not finite
has no written form and becomes `null`.
-/

namespace DefectScan

inductive Json
  | null
  | bool (b : Bool)
  | int (n : Int)
  | real (x : Float)
  | str (s : String)
  | arr (items : List Json)
  | obj (members : List (String × Json))

namespace Json

instance : Inhabited Json := ⟨null⟩

/-- Real numbers have their shortest digits; those from `0.00001` up to 16 digits are written in
full. -/
def number : Decimal.NumberFormat := ⟨-5, 15, "+", .toEven⟩

/-! ## Strings -/

def hexDigit (n : Nat) : Char := if n < 10 then Char.ofNat (48 + n) else Char.ofNat (87 + n)

/-- How a character is written inside a string. -/
def escape (c : Char) : List Char :=
  if c = '"' then ['\\', '"']
  else if c = '\\' then ['\\', '\\']
  else if c = '\x08' then ['\\', 'b']
  else if c = '\t' then ['\\', 't']
  else if c = '\n' then ['\\', 'n']
  else if c = '\x0c' then ['\\', 'f']
  else if c = '\r' then ['\\', 'r']
  else if c.toNat < 0x20 then
    ['\\', 'u', '0', '0', hexDigit (c.toNat / 16), hexDigit (c.toNat % 16)]
  else [c]

def quote (s : String) : List Char := '"' :: (s.toList.flatMap escape ++ ['"'])

/-! ## Text without blanks -/

def realText (x : Float) : List Char :=
  if x.isFinite then (number.render x).toList else "null".toList

mutual
def writeCompact : Json → List Char
  | null => "null".toList
  | bool b => (if b then "true" else "false").toList
  | int n => (toString n).toList
  | real x => realText x
  | str s => quote s
  | arr items => '[' :: (writeItems items ++ [']'])
  | obj members => '\x7b' :: (writeMembers members ++ ['\x7d'])

def writeItems : List Json → List Char
  | [] => []
  | [x] => writeCompact x
  | x :: xs => writeCompact x ++ ',' :: writeItems xs

def writeMembers : List (String × Json) → List Char
  | [] => []
  | [(k, x)] => quote k ++ ':' :: writeCompact x
  | (k, x) :: xs => quote k ++ ':' :: (writeCompact x ++ ',' :: writeMembers xs)
end

/-! ## Text in lines -/

def lineAt (depth : Nat) : List Char := '\n' :: List.replicate (2 * depth) ' '

mutual
/-- The text with one item on each line, each level two blanks further in. -/
def writePretty (depth : Nat) : Json → List Char
  | arr [] => ['[', ']']
  | arr (x :: xs) => '[' :: (writePrettyItems (depth + 1) (x :: xs) ++ lineAt depth ++ [']'])
  | obj [] => ['\x7b', '\x7d']
  | obj (x :: xs) =>
    '\x7b' :: (writePrettyMembers (depth + 1) (x :: xs) ++ lineAt depth ++ ['\x7d'])
  | null => "null".toList
  | bool b => (if b then "true" else "false").toList
  | int n => (toString n).toList
  | real x => realText x
  | str s => quote s

def writePrettyItems (depth : Nat) : List Json → List Char
  | [] => []
  | [x] => lineAt depth ++ writePretty depth x
  | x :: xs => lineAt depth ++ writePretty depth x ++ ',' :: writePrettyItems depth xs

def writePrettyMembers (depth : Nat) : List (String × Json) → List Char
  | [] => []
  | [(k, x)] => lineAt depth ++ quote k ++ ':' :: ' ' :: writePretty depth x
  | (k, x) :: xs =>
    lineAt depth ++ quote k ++ ':' :: ' ' :: (writePretty depth x ++ ',' ::
      writePrettyMembers depth xs)
end

mutual
/-- The value with the members of its objects in the order of their keys. -/
def sorted : Json → Json
  | arr items => arr (sortedItems items)
  | obj members => obj ((sortedMembers members).mergeSort fun a b => decide (a.1 ≤ b.1))
  | j => j

def sortedItems : List Json → List Json
  | [] => []
  | x :: xs => sorted x :: sortedItems xs

def sortedMembers : List (String × Json) → List (String × Json)
  | [] => []
  | (k, x) :: xs => (k, sorted x) :: sortedMembers xs
end

def compact (j : Json) : String := String.ofList j.writeCompact

def pretty (j : Json) : String := String.ofList (j.writePretty 0)

end Json

end DefectScan
