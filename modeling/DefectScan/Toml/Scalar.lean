import DefectScan.Config.Value
import DefectScan.Decimal.Digits
import DefectScan.Decimal.Dyadic

/-!
# Words and numbers in TOML

A value that is no string, array or table is written as one word: a boolean, a whole number, a real
number, or a date and time. Single underscores may stand between digits.
-/

namespace DefectScan.Toml

open Decimal (isDigit digitsValue radixValue? hexValue splitSign)

/-- The digits of a number without the underscores between them. -/
def ungroup? (isDigit : Char → Bool) : List Char → Option (List Char)
  | [] => none
  | [c] => if isDigit c then some [c] else none
  | c :: '_' :: rest => if isDigit c then (ungroup? isDigit rest).map (c :: ·) else none
  | c :: rest => if isDigit c then (ungroup? isDigit rest).map (c :: ·) else none

/-- Decimal digits; a zero does not start a longer number. -/
def wholeDigits? (word : List Char) : Option (List Char) := do
  let ds ← ungroup? isDigit word
  if 1 < ds.length && ds.head? = some '0' then none else return ds

/-- A whole number that fits into 64 bits. -/
def inRange? (n : Int) : Option ConfigValue :=
  if -(Nat.pow 2 63) ≤ n && n < Nat.pow 2 63 then some (.int n) else none

/-- A whole number to another base. -/
def radix? (base : Nat) (word : List Char) : Option ConfigValue := do
  let ds ← ungroup? (fun c => (hexValue c).isSome) word
  inRange? (← radixValue? base ds 0)

def integer? (word : List Char) : Option ConfigValue :=
  match word with
  | '0' :: 'x' :: ds => radix? 16 ds
  | '0' :: 'o' :: ds => radix? 8 ds
  | '0' :: 'b' :: ds => radix? 2 ds
  | _ => do
    let (negative, ds) := splitSign word
    let n := digitsValue (← wholeDigits? ds)
    inRange? (if negative then -n else n)

def isExponentMark (c : Char) : Bool := c = 'e' || c = 'E'

/-- The digits behind a point, and what follows them. -/
def fraction? : List Char → Option (List Char × List Char)
  | '.' :: rest => do
    let ds ← ungroup? isDigit (rest.takeWhile fun c => !isExponentMark c)
    return (ds, rest.dropWhile fun c => !isExponentMark c)
  | rest => some ([], rest)

def exponent? : List Char → Option Int
  | [] => some 0
  | _ :: rest => do
    let (negative, ds) := splitSign rest
    let n := digitsValue (← ungroup? isDigit ds)
    return if negative then -n else n

def special? (word : List Char) : Option Float :=
  match word with
  | ['i', 'n', 'f'] => some (1 / 0)
  | ['n', 'a', 'n'] => some (0 / 0)
  | _ => none

/-- A real number. One that is too large for its type is refused. -/
def real? (word : List Char) : Option ConfigValue :=
  let (negative, body) := splitSign word
  match special? body with
  | some x => some (.real (if negative then -x else x))
  | none => do
    let isMark (c : Char) : Bool := c = '.' || isExponentMark c
    let rest := body.dropWhile fun c => !isMark c
    if rest.isEmpty then none
    let whole ← wholeDigits? (body.takeWhile fun c => !isMark c)
    let (places, rest) ← fraction? rest
    let x := Decimal.toFloat negative
      ⟨digitsValue (whole ++ places), (← exponent? rest) - places.length⟩
    if x.isInf then none else return .real x

/-! ## Dates and times -/

/-- A number of so many digits within bounds. -/
def clock? (width low high : Nat) (text : List Char) : Option (Nat × List Char) :=
  let ds := text.take width
  let n := digitsValue ds
  if ds.length = width && ds.all isDigit && low ≤ n && n ≤ high then some (n, text.drop width)
  else none

def mark? (c : Char) : List Char → Option (List Char)
  | x :: rest => if x = c then some rest else none
  | [] => none

def monthLength (year month : Nat) : Nat :=
  if month = 2 then
    if year % 4 = 0 && (year % 100 ≠ 0 || year % 400 = 0) then 29 else 28
  else if [4, 6, 9, 11].contains month then 30
  else 31

def date? (text : List Char) : Option (List Char) := do
  let (year, text) ← clock? 4 0 9999 text
  let (month, text) ← clock? 2 1 12 (← mark? '-' text)
  let (_, text) ← clock? 2 1 (monthLength year month) (← mark? '-' text)
  return text

def time? (text : List Char) : Option (List Char) := do
  let (_, text) ← clock? 2 0 23 text
  let (_, text) ← clock? 2 0 59 (← mark? ':' text)
  let (_, text) ← clock? 2 0 60 (← mark? ':' text)
  match text with
  | '.' :: c :: rest => if isDigit c then return rest.dropWhile isDigit else none
  | _ => return text

def zone? (text : List Char) : Option (List Char) :=
  match text with
  | [] => some []
  | c :: rest =>
    if c = 'Z' || c = 'z' then some rest
    else if c = '+' || c = '-' then do
      let (_, text) ← clock? 2 0 23 rest
      let (_, text) ← clock? 2 0 59 (← mark? ':' text)
      return text
    else none

/-- Whether a word is a date, a time, or both with or without a zone. -/
def isMoment (word : List Char) : Bool :=
  match date? word with
  | some [] => true
  | some (c :: rest) =>
    ['T', 't', ' '].contains c && ((time? rest).bind zone?) = some []
  | none => time? word = some []

/-- A date and time is a table of its own kind, with the text in it. -/
def moment (word : List Char) : ConfigValue := .table [("datetime", .str (String.ofList word))]

/-! ## Words -/

def isWordChar (c : Char) : Bool :=
  isDigit c || ('a' ≤ c && c ≤ 'z') || ('A' ≤ c && c ≤ 'Z') || ['+', '-', '_', '.', ':'].contains c

/-- The word at the start of a text. A blank may stand between a date and a time. -/
def splitWord (text : List Char) : List Char × List Char :=
  let word := text.takeWhile isWordChar
  let rest := text.dropWhile isWordChar
  match rest with
  | ' ' :: c :: more =>
    if date? word = some [] && isDigit c then
      (word ++ ' ' :: (c :: more).takeWhile isWordChar, (c :: more).dropWhile isWordChar)
    else (word, rest)
  | _ => (word, rest)

def wordValue? (word : List Char) : Option ConfigValue :=
  match word with
  | ['t', 'r', 'u', 'e'] => some (.bool true)
  | ['f', 'a', 'l', 's', 'e'] => some (.bool false)
  | _ =>
    match integer? word with
    | some v => some v
    | none =>
      match real? word with
      | some v => some v
      | none => if isMoment word then some (moment word) else none

end DefectScan.Toml
