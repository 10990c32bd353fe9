import DefectScan.Decimal.Digits
import DefectScan.Text.Blank

/-!
# Instants

An instant is a number of seconds since the start of 1970 and a number of nanoseconds; a billion
nanoseconds or more stand for a leap second. The text of an instant is a date and a time with `Z`
for the zone. Reading also takes other zones, a blank between date and time, and single digits.
-/

namespace DefectScan

structure Timestamp where
  seconds : Int
  nanos : Nat
deriving DecidableEq, Repr

namespace Timestamp

open Decimal (isDigit digitsValue)

/-! ## The calendar -/

/-- The days from the start of 1970 to a date. Years are counted from March, so that the leap day
comes last. -/
def daysFromCivil (year month day : Int) : Int :=
  let y := if month ≤ 2 then year - 1 else year
  let era := y / 400
  let yearOfEra := y - era * 400
  let dayOfYear := (153 * (if 2 < month then month - 3 else month + 9) + 2) / 5 + day - 1
  let dayOfEra := yearOfEra * 365 + yearOfEra / 4 - yearOfEra / 100 + dayOfYear
  era * 146097 + dayOfEra - 719468

/-- The date on a day: year, month and day. -/
def civilFromDays (days : Int) : Int × Int × Int :=
  let z := days + 719468
  let era := z / 146097
  let dayOfEra := z - era * 146097
  let yearOfEra := (dayOfEra - dayOfEra / 1460 + dayOfEra / 36524 - dayOfEra / 146096) / 365
  let dayOfYear := dayOfEra - (365 * yearOfEra + yearOfEra / 4 - yearOfEra / 100)
  let m := (5 * dayOfYear + 2) / 153
  let day := dayOfYear - (153 * m + 2) / 5 + 1
  let month := if m < 10 then m + 3 else m - 9
  let year := yearOfEra + era * 400 + if month ≤ 2 then 1 else 0
  (year, month, day)

def isLeapYear (year : Int) : Bool := year % 4 = 0 && (year % 100 ≠ 0 || year % 400 = 0)

def daysInMonth (year month : Int) : Int :=
  if month = 2 then if isLeapYear year then 29 else 28
  else if month = 4 || month = 6 || month = 9 || month = 11 then 30
  else 31

/-! ## Text -/

def padded (width : Nat) (n : Nat) : String :=
  let digits := toString n
  String.ofList (List.replicate (width - digits.length) '0') ++ digits

/-- A year has four digits; other years have a sign. -/
def yearText (year : Int) : String :=
  if 0 ≤ year && year ≤ 9999 then padded 4 year.toNat
  else (if year < 0 then "-" else "+") ++ padded 4 year.natAbs

/-- No, three, six or nine digits. -/
def fractionText (nanos : Nat) : String :=
  if nanos = 0 then ""
  else if nanos % 1000000 = 0 then "." ++ padded 3 (nanos / 1000000)
  else if nanos % 1000 = 0 then "." ++ padded 6 (nanos / 1000)
  else "." ++ padded 9 nanos

def text (t : Timestamp) : String :=
  let (year, month, day) := civilFromDays (t.seconds / 86400)
  let second := (t.seconds % 86400).toNat
  let leap := 1000000000 ≤ t.nanos
  let nanos := if leap then t.nanos - 1000000000 else t.nanos
  yearText year ++ "-" ++ padded 2 month.toNat ++ "-" ++ padded 2 day.toNat ++ "T"
    ++ padded 2 (second / 3600) ++ ":" ++ padded 2 (second / 60 % 60) ++ ":"
    ++ padded 2 (second % 60 + if leap then 1 else 0) ++ fractionText nanos ++ "Z"

/-! ## Reading -/

/-- A number of at least one digit and at most `width`, and what follows it. -/
def readNumber (width : Nat) (text : List Char) : Option (Nat × List Char) :=
  let ds := (text.take width).takeWhile isDigit
  if ds.isEmpty then none else some (digitsValue ds, text.drop ds.length)

/-- A number with blanks before it. -/
def readField (width : Nat) (text : List Char) : Option (Nat × List Char) :=
  readNumber width (Text.trimLeft text)

def readYear (text : List Char) : Option (Int × List Char) :=
  match Text.trimLeft text with
  | '-' :: rest => (readNumber rest.length rest).map fun (n, r) => (-(n : Int), r)
  | '+' :: rest => (readNumber rest.length rest).map fun (n, r) => ((n : Int), r)
  | rest => (readNumber 4 rest).map fun (n, r) => ((n : Int), r)

/-- A mark with blanks before it. -/
def readMark (mark : Char) (text : List Char) : Option (List Char) :=
  match Text.trimLeft text with
  | c :: rest => if c = mark then some rest else none
  | [] => none

/-- The digits behind the point, if there is one, as nanoseconds. -/
def readFraction : List Char → Option (Nat × List Char)
  | '.' :: rest => do
    let (n, _) ← readNumber 9 rest
    let width := ((rest.take 9).takeWhile isDigit).length
    return (n * Nat.pow 10 (9 - width), rest.dropWhile isDigit)
  | text => some (0, text)

def twoDigits : List Char → Option (Nat × List Char)
  | a :: b :: rest => if isDigit a && isDigit b then some (digitsValue [a, b], rest) else none
  | _ => none

/-- The offset of a zone in seconds. -/
def readZone (text : List Char) : Option (Int × List Char) :=
  let signed (sign : Int) (rest : List Char) : Option (Int × List Char) := do
    let (hours, rest) ← twoDigits rest
    let (minutes, rest) ← twoDigits (rest.dropWhile fun c => c = ':' || Text.isBlank c)
    if 59 < minutes then none else some (sign * (hours * 3600 + minutes * 60), rest)
  match text with
  | c :: rest =>
    if c = 'Z' || c = 'z' then some (0, rest)
    else if c = '+' then signed 1 rest
    else if c = '-' || c = '−' then signed (-1) rest
    else if (text.take 3).map Char.toLower = "utc".toList then some (0, text.drop 3)
    else none
  | [] => none

/-- The years that an instant can have. -/
def inCalendar (year : Int) : Bool := -262143 ≤ year && year ≤ 262142

def ofText? (s : String) : Option Timestamp := do
  let (year, text) ← readYear s.toList
  let (month, text) ← readField 2 (← readMark '-' text)
  let (day, text) ← readField 2 (← readMark '-' text)
  let text ← match text with
    | c :: rest => if c = 'T' || c = 't' || c = ' ' then some rest else none
    | [] => none
  let (hour, text) ← readField 2 text
  let (minute, text) ← readField 2 (← readMark ':' text)
  let (second, text) ← readField 2 (← readMark ':' text)
  let (nanos, text) ← readFraction text
  let (offset, text) ← readZone (Text.trimLeft text)
  if !text.isEmpty || !inCalendar year || month < 1 || 12 < month || day < 1
      || daysInMonth year month < day || 23 < hour || 59 < minute || 60 < second
      || 86400 ≤ offset.natAbs then
    none
  else
    let leap := second = 60
    let clock := hour * 3600 + minute * 60 + if leap then 59 else second
    let seconds := daysFromCivil year month day * 86400 + clock - offset
    if inCalendar (civilFromDays (seconds / 86400)).1 then
      some ⟨seconds, if leap then nanos + 1000000000 else nanos⟩
    else none

end Timestamp

end DefectScan
