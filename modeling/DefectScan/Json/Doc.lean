import DefectScan.Decimal.Digits
import DefectScan.Decimal.Dyadic

/-!
# JSON text as far as it goes

Reading a JSON text never fails: it gives a document that ends where the text breaks off or breaks a
rule. What asks for a value of some type walks the document in the order of the text, so it meets a
wrong type before a broken end if it stands before it.

A fault may depend on how it is met. A string with half a surrogate pair is fine where it is passed
over and malformed where its value is asked for.
-/

namespace DefectScan.Json

open Decimal (isDigit digitsValue hexValue)

/-- What is wrong with a text. -/
inductive Fault
  /-- The text ends too early. -/
  | truncated
  /-- The text is not JSON. -/
  | malformed
  /-- The text is JSON but says something else. -/
  | mismatch
deriving DecidableEq, Repr

/-- A place where a text cannot be read on: the fault where the value is used, where it is passed
over, and where it is taken for the name of a variant or what follows one. -/
structure Break where
  used : Fault
  passed : Fault
  variant : Fault
deriving DecidableEq, Repr

def Break.all (f : Fault) : Break := ⟨f, f, f⟩

/-- A number as it is written. -/
structure Numeral where
  negative : Bool
  value : Decimal.Number
  /-- There is neither a point nor an exponent. -/
  whole : Bool
deriving DecidableEq, Repr

inductive Doc
  | null
  | bool (b : Bool)
  | num (n : Numeral)
  /-- A string, or nothing if it holds half a surrogate pair. -/
  | str (s : Option String)
  | arr (items : List Doc) (stop : Option Break)
  | obj (members : List (Option String × Doc)) (stop : Option Break)
  | broken (b : Break)

instance : Inhabited Doc := ⟨.null⟩

def isBlank (c : Char) : Bool := c = ' ' || c = '\n' || c = '\t' || c = '\r'

def skipBlanks (text : List Char) : List Char := text.dropWhile isBlank

/-! ## Words and numbers -/

/-- What follows a word, if it stands there. -/
def readWord : List Char → List Char → Except Fault (List Char)
  | [], rest => .ok rest
  | _ :: _, [] => .error .truncated
  | w :: word, c :: rest => if c = w then readWord word rest else .error .malformed

def splitDigits (text : List Char) : List Char × List Char :=
  (text.takeWhile isDigit, text.dropWhile isDigit)

/-- At least one digit. -/
def someDigits (text : List Char) : Except Fault (List Char × List Char) :=
  match splitDigits text with
  | ([], []) => .error .truncated
  | ([], _ :: _) => .error .malformed
  | (ds, rest) => .ok (ds, rest)

/-- The digits before the point; a zero stands alone. -/
def wholeDigits (text : List Char) : Except Fault (List Char × List Char) :=
  match text with
  | '0' :: c :: rest => if isDigit c then .error .malformed else .ok (['0'], c :: rest)
  | _ => someDigits text

def fractionDigits : List Char → Except Fault (Option (List Char) × List Char)
  | '.' :: rest => do
    let (ds, rest) ← someDigits rest
    return (some ds, rest)
  | text => .ok (none, text)

def exponentValue (text : List Char) : Except Fault (Option Int × List Char) :=
  match text with
  | c :: rest =>
    if c = 'e' || c = 'E' then
      match rest with
      | '-' :: rest => do
        let (ds, rest) ← someDigits rest
        return (some (-(digitsValue ds : Int)), rest)
      | '+' :: rest => do
        let (ds, rest) ← someDigits rest
        return (some (digitsValue ds : Int), rest)
      | _ => do
        let (ds, rest) ← someDigits rest
        return (some (digitsValue ds : Int), rest)
    else .ok (none, text)
  | [] => .ok (none, text)

def readNumeral (text : List Char) : Except Fault (Numeral × List Char) := do
  let (negative, text) := match text with
    | '-' :: rest => (true, rest)
    | _ => (false, text)
  let (whole, text) ← wholeDigits text
  let (fraction, text) ← fractionDigits text
  let (exponent, text) ← exponentValue text
  let places := fraction.getD []
  return ({
    negative
    value := ⟨digitsValue (whole ++ places), exponent.getD 0 - places.length⟩
    whole := fraction.isNone && exponent.isNone }, text)

/-- The number as a floating-point number, if it is in range. -/
def Numeral.toFloat? (n : Numeral) : Option Float :=
  let x := Decimal.toFloat n.negative n.value
  if x.isFinite then some x else none

/-! ## Strings -/

/-- Whether fewer than `n` bytes are left. -/
def shorterThan : Nat → List Char → Bool
  | 0, _ => false
  | _ + 1, [] => true
  | n + 1, c :: rest => shorterThan (n + 1 - c.utf8Size) rest

/-- Four hexadecimal digits. -/
def readUnit (text : List Char) : Except Fault (Nat × List Char) :=
  if shorterThan 4 text then .error .truncated
  else
    match text with
    | a :: b :: c :: d :: rest =>
      match hexValue a, hexValue b, hexValue c, hexValue d with
      | some a, some b, some c, some d => .ok (((a * 16 + b) * 16 + c) * 16 + d, rest)
      | _, _, _, _ => .error .malformed
    | _ => .error .malformed

/-- A unit of a string: a character, or half of a surrogate pair. -/
inductive StringUnit
  | char (c : Char)
  | lead (n : Nat)
  | trail (n : Nat)

def unitOf (n : Nat) : StringUnit :=
  if 0xD800 ≤ n && n < 0xDC00 then .lead n
  else if 0xDC00 ≤ n && n < 0xE000 then .trail n
  else .char (Char.ofNat n)

/-- What an escape stands for, behind the backslash. -/
def readEscape : List Char → Except Fault (StringUnit × List Char)
  | [] => .error .truncated
  | c :: rest =>
    if c = '"' || c = '\\' || c = '/' then .ok (.char c, rest)
    else if c = 'b' then .ok (.char '\x08', rest)
    else if c = 'f' then .ok (.char '\x0c', rest)
    else if c = 'n' then .ok (.char '\n', rest)
    else if c = 'r' then .ok (.char '\r', rest)
    else if c = 't' then .ok (.char '\t', rest)
    else if c = 'u' then do
      let (n, rest) ← readUnit rest
      return (unitOf n, rest)
    else .error .malformed

/-- The units of a string up to its closing quote. If the string breaks off, the units before that
come with the fault. -/
def readUnits : Nat → List Char → List StringUnit × Except Fault (List Char)
  | 0, _ => ([], .error .truncated)
  | _ + 1, [] => ([], .error .truncated)
  | fuel + 1, c :: rest =>
    if c = '"' then ([], .ok rest)
    else if c = '\\' then
      match readEscape rest with
      | .error f => ([], .error f)
      | .ok (u, rest) =>
        let (units, result) := readUnits fuel rest
        (u :: units, result)
    else if c.toNat < 0x20 then ([], .error .malformed)
    else
      let (units, result) := readUnits fuel rest
      (.char c :: units, result)

/-- The characters of a string, if its surrogates come in pairs. -/
def joinUnits : List StringUnit → Option (List Char)
  | [] => some []
  | .char c :: rest => (joinUnits rest).map (c :: ·)
  | .lead a :: .trail b :: rest =>
    (joinUnits rest).map (Char.ofNat (0x10000 + (a - 0xD800) * 0x400 + (b - 0xDC00)) :: ·)
  | _ => none

/-- Whether a string that breaks off is in order up to there; an open pair may still be closed. -/
def inOrder : List StringUnit → Bool
  | [] => true
  | .char _ :: rest => inOrder rest
  | .lead _ :: .trail _ :: rest => inOrder rest
  | [.lead _] => true
  | _ => false

/-- A string behind its opening quote. -/
def readString (text : List Char) : Except Break (Option String × List Char) :=
  let (units, result) := readUnits (text.length + 1) text
  match result with
  | .ok rest => .ok ((joinUnits units).map String.ofList, rest)
  | .error f =>
    let used := if inOrder units then f else .malformed
    .error ⟨used, f, used⟩

/-! ## Values -/

/-- A fault where an object should have a key. -/
def keyBreak (text : List Char) : Break :=
  let variant : Fault := match text with
    | [] => .truncated
    | c :: _ =>
      if c = '[' || c = '\x7b' then .mismatch
      else if c = '-' || isDigit c then
        match readNumeral text with
        | .ok (n, _) => if n.toFloat?.isSome then .mismatch else .malformed
        | .error f => f
      else
        let word := if c = 't' then "true" else if c = 'f' then "false" else "null"
        if c = 't' || c = 'f' || c = 'n' then
          match readWord word.toList text with
          | .ok _ => .mismatch
          | .error f => f
        else .malformed
  match text with
  | [] => ⟨.truncated, .truncated, variant⟩
  | _ => ⟨.malformed, .malformed, variant⟩

/-- What stands where an array or an object goes on. -/
inductive Next
  | finish (rest : List Char)
  | stop (b : Break)
  | entry (text : List Char)

/-- The next item of an array, behind blanks. -/
def nextItem (isFirst : Bool) : List Char → Next
  | [] => .stop (.all .truncated)
  | c :: rest =>
    if c = ']' then .finish rest
    else if isFirst then .entry (c :: rest)
    else if c = ',' then .entry rest
    else .stop (.all .malformed)

/-- The next key of an object, behind blanks. -/
def nextKey (isFirst : Bool) : List Char → Next
  | [] => .stop (.all .truncated)
  | c :: rest =>
    if c = '\x7d' then .finish rest
    else if isFirst then .entry (c :: rest)
    else if c = ',' then .entry (skipBlanks rest)
    else .stop (.all .malformed)

/-- A key and what stands behind its colon. -/
inductive Key
  | stop (b : Break)
  | noValue (key : Option String) (f : Fault)
  | colon (key : Option String) (rest : List Char)

def readKey (isFirst : Bool) (text : List Char) : Key :=
  let stopAt (b : Break) : Key := .stop (if isFirst then b else { b with variant := .malformed })
  match text with
  | '"' :: rest =>
    match readString rest with
    | .error b => stopAt b
    | .ok (key, rest) =>
      match skipBlanks rest with
      | [] => .noValue key .truncated
      | c :: rest => if c = ':' then .colon key rest else .noValue key .malformed
  | _ => stopAt (keyBreak text)

/-- A word that is a value. -/
def wordValue (w : String) (d : Doc) (text : List Char) : Doc × Option (List Char) :=
  match readWord w.toList text with
  | .ok rest => (d, some rest)
  | .error f => (.broken ⟨f, f, .malformed⟩, none)

/-- A value that has no parts. Where a number is passed over, one that breaks off is malformed. -/
def readScalar (c : Char) (rest : List Char) : Doc × Option (List Char) :=
  if c = '"' then
    match readString rest with
    | .ok (s, rest) => (.str s, some rest)
    | .error b => (.broken b, none)
  else if c = '-' || isDigit c then
    match readNumeral (c :: rest) with
    | .ok (n, rest) => (.num n, some rest)
    | .error f => (.broken ⟨f, .malformed, .malformed⟩, none)
  else if c = 'n' then wordValue "null" .null (c :: rest)
  else if c = 't' then wordValue "true" (.bool true) (c :: rest)
  else if c = 'f' then wordValue "false" (.bool false) (c :: rest)
  else (.broken (.all .malformed), none)

mutual
/-- Reads a value; what remains of the text, if the value is unbroken. -/
def readValue : Nat → List Char → Doc × Option (List Char)
  | 0, _ => (.broken (.all .truncated), none)
  | fuel + 1, text =>
    match skipBlanks text with
    | [] => (.broken (.all .truncated), none)
    | c :: rest =>
      if c = '[' then
        let (items, stop, rest) := readItems fuel (skipBlanks rest) true
        (.arr items stop, rest)
      else if c = '\x7b' then
        let (members, stop, rest) := readMembers fuel (skipBlanks rest) true
        (.obj members stop, rest)
      else readScalar c rest

/-- Reads the items of an array up to its end. -/
def readItems : Nat → List Char → Bool → List Doc × Option Break × Option (List Char)
  | 0, _, _ => ([], some (.all .truncated), none)
  | fuel + 1, text, isFirst =>
    match nextItem isFirst text with
    | .finish rest => ([], none, some rest)
    | .stop b => ([], some b, none)
    | .entry text =>
      match readValue fuel text with
      | (d, none) => ([d], none, none)
      | (d, some rest) =>
        let (items, stop, rest) := readItems fuel (skipBlanks rest) false
        (d :: items, stop, rest)

/-- Reads the members of an object up to its end. -/
def readMembers : Nat → List Char → Bool →
    List (Option String × Doc) × Option Break × Option (List Char)
  | 0, _, _ => ([], some (.all .truncated), none)
  | fuel + 1, text, isFirst =>
    match nextKey isFirst text with
    | .finish rest => ([], none, some rest)
    | .stop b => ([], some b, none)
    | .entry text =>
      match readKey isFirst text with
      | .stop b => ([], some b, none)
      | .noValue key f => ([(key, .broken (.all f))], none, none)
      | .colon key text =>
        match readValue fuel text with
        | (d, none) => ([(key, d)], none, none)
        | (d, some rest) =>
          let (members, stop, rest) := readMembers fuel (skipBlanks rest) false
          ((key, d) :: members, stop, rest)
end

/-- Reads a whole text; what stands behind the value is no fault yet. -/
def readDoc (text : List Char) : Doc × Option (List Char) := readValue (2 * text.length + 2) text

mutual
/-- The fault that is met where a value is passed over. -/
def Doc.passedFault : Doc → Option Fault
  | .broken b => some b.passed
  | .arr items stop => (itemsFault items).or (stop.map (·.passed))
  | .obj members stop => (membersFault members).or (stop.map (·.passed))
  | _ => none

def itemsFault : List Doc → Option Fault
  | [] => none
  | d :: ds => d.passedFault.or (itemsFault ds)

def membersFault : List (Option String × Doc) → Option Fault
  | [] => none
  | (_, d) :: ds => d.passedFault.or (membersFault ds)
end

end DefectScan.Json
