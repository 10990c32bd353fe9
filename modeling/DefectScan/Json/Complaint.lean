import DefectScan.Json.Decode
import DefectScan.Text.Shown

/-!
# What is said of a text that cannot be decoded

A complaint names the first fault of a text and its place, by line and byte, against the shape that
was asked for. A fault that shows itself by a character stands behind that character; a value of
another type stands behind its text, an array or an object of another type before it.
-/

namespace DefectScan.Json

open Decimal (isDigit hexValue)

/-- What is asked for. -/
inductive Shape
  | string
  /-- One of some names. -/
  | name (names : List String)
  | list (item : Shape)
  /-- A record: the fields with their shapes, and whether they may be absent. -/
  | record (title : String) (fields : List (String × Shape × Bool))

/-- A place in a text, with what follows it. -/
structure Cursor where
  rest : List Char
  line : Nat := 1
  column : Nat := 0

namespace Cursor

/-- The cursor behind the first `n` bytes; a line ends behind its end mark. -/
def pass : Nat → Cursor → Cursor
  | 0, c => c
  | _ + 1, ⟨[], line, column⟩ => ⟨[], line, column⟩
  | n + 1, ⟨x :: rest, line, column⟩ =>
    if x = '\n' then pass n ⟨rest, line + 1, 0⟩
    else if x.utf8Size ≤ n + 1 then pass (n + 1 - x.utf8Size) ⟨rest, line, column + x.utf8Size⟩
    else ⟨x :: rest, line, column + n + 1⟩
termination_by n => n
decreasing_by
  · omega
  · have := x.utf8Size_pos
    omega

def text (c : Cursor) : String :=
  " at line " ++ toString c.line ++ " column " ++ toString c.column

end Cursor

/-- Reading with a cursor, up to the first complaint. -/
abbrev Inspect := StateT Cursor (Except String)

namespace Inspect

/-- A complaint about what was read. -/
def complain {α : Type} (what : String) : Inspect α := do
  throw (what ++ (← get).text)

/-- A complaint about what comes next. -/
def complainNext {α : Type} (what : String) : Inspect α := do
  throw (what ++ ((← get).pass 1).text)

def next? : Inspect (Option Char) := return (← get).rest.head?

def advance : Inspect Unit :=
  modify fun c => c.pass ((c.rest.head?.map Char.utf8Size).getD 0)

/-- The next character that is not blank. -/
def nextFilled? : Inspect (Option Char) := do
  modify fun c => c.pass (c.rest.takeWhile isBlank).length
  next?

/-- Reads the rest of a word. -/
def word : List Char → Inspect Unit
  | [] => return
  | w :: ws => do
    match ← next? with
    | none => complain "EOF while parsing a value"
    | some c =>
      if c = w then
        advance
        word ws
      else complainNext "expected ident"

/-! ## Numbers -/

/-- A number that breaks off or goes wrong here. -/
def noDigit {α : Type} (used : Bool) : Inspect α := do
  match ← next? with
  | none => complain (if used then "EOF while parsing a value" else "invalid number")
  | some _ => complainNext "invalid number"

def skipDigits : Inspect Unit :=
  modify fun c => c.pass (c.rest.takeWhile isDigit).length

def digits (used : Bool) : Inspect Unit := do
  match ← next? with
  | some c => if isDigit c then skipDigits else noDigit used
  | none => noDigit used

def wholePart (used : Bool) : Inspect Unit := do
  if (← next?) = some '0' then
    advance
    match ← next? with
    | some c => if isDigit c then complainNext "invalid number"
    | none => return
  else digits used

def fraction (used : Bool) : Inspect Unit := do
  if (← next?) = some '.' then
    advance
    digits used

def exponent (used : Bool) : Inspect Unit := do
  let mark ← next?
  if mark = some 'e' || mark = some 'E' then
    advance
    let sign ← next?
    if sign = some '+' || sign = some '-' then advance
    digits used

/-- How a number is called; one that is passed over has no value. -/
def number (used : Bool) : Inspect String := do
  let text := (← get).rest
  if (← next?) = some '-' then advance
  wholePart used
  fraction used
  exponent used
  if !used then return ""
  match (readNumeral text).bind fun (n, _) => numberValue n with
  | .ok (.int n) => return "integer `" ++ toString n ++ "`"
  | .ok x => return "floating point `" ++ x.compact ++ "`"
  | .error _ => complain "number out of range"

/-! ## Strings -/

/-- Four hexadecimal digits. -/
def hexUnit : Inspect Nat := do
  let text := (← get).rest
  modify (·.pass 4)
  match readUnit text with
  | .ok (n, _) => return n
  | .error .truncated => complain "EOF while parsing a string"
  | .error _ => complain "invalid escape"

/-- What has to come between the halves of a surrogate pair. -/
def between (x : Char) : Inspect Unit := do
  match ← next? with
  | none => complain "EOF while parsing a string"
  | some c => if c = x then advance else complainNext "unexpected end of hex escape"

/-- A character by its number, or a surrogate pair. -/
def codePoint : Inspect Char := do
  match unitOf (← hexUnit) with
  | .char c => return c
  | .trail _ => complain "lone leading surrogate in hex escape"
  | .lead a =>
    between '\\'
    between 'u'
    match unitOf (← hexUnit) with
    | .trail b => return Char.ofNat (0x10000 + (a - 0xD800) * 0x400 + (b - 0xDC00))
    | _ => complain "lone leading surrogate in hex escape"

/-- What stands behind a backslash. -/
def escaped (used : Bool) : Inspect Char := do
  match ← next? with
  | none => complain "EOF while parsing a string"
  | some 'u' =>
    advance
    if used then codePoint
    else
      let _ ← hexUnit
      return 'u'
  | some c =>
    match readEscape [c] with
    | .ok (.char x, _) =>
      advance
      return x
    | _ => complainNext "invalid escape"

/-- The characters up to the closing quote. -/
def chars (used : Bool) : Nat → Inspect (List Char)
  | 0 => return []
  | fuel + 1 => do
    match ← next? with
    | none => complain "EOF while parsing a string"
    | some c =>
      if c = '"' then
        advance
        return []
      else if c = '\\' then
        advance
        let x ← escaped used
        return x :: (← chars used fuel)
      else if c.toNat < 0x20 then
        complainNext "control character (\\u0000-\\u001F) found while parsing a string"
      else
        advance
        return c :: (← chars used fuel)

/-- A string behind its opening quote. -/
def string (used : Bool) : Inspect String := do
  let n := (← get).rest.length
  return String.ofList (← chars used (n + 1))

/-! ## Values of another type -/

/-- How a value of another type than asked for is called, with the cursor behind it unless it has
parts. -/
def described (c : Char) : Inspect String := do
  if c = 'n' then
    word "null".toList
    return "null"
  else if c = 't' then
    word "true".toList
    return "boolean `true`"
  else if c = 'f' then
    word "false".toList
    return "boolean `false`"
  else if c = '-' || isDigit c then number true
  else if c = '"' then
    advance
    return "string " ++ Text.shown (← string true)
  else if c = '[' then return "sequence"
  else if c = '\x7b' then return "map"
  else complainNext "expected value"

def otherType {α : Type} (c : Char) (expected : String) : Inspect α := do
  let what ← described c
  complain ("invalid type: " ++ what ++ ", expected " ++ expected)

/-- The first character of a value. -/
def start : Inspect Char := do
  match ← nextFilled? with
  | some c => return c
  | none => complain "EOF while parsing a value"

/-- The colon behind a key. -/
def colon : Inspect Unit := do
  match ← nextFilled? with
  | some ':' => advance
  | some _ => complainNext "expected `:`"
  | none => complain "EOF while parsing an object"

/-! ## Arrays and objects -/

/-- Whether an array has another item. -/
def anotherItem (isFirst : Bool) : Inspect Bool := do
  match ← nextFilled? with
  | none => complain "EOF while parsing a list"
  | some c =>
    if c = ']' then return false
    else if isFirst then return true
    else if c = ',' then
      advance
      match ← nextFilled? with
      | some ']' => complainNext "trailing comma"
      | some _ => return true
      | none => complain "EOF while parsing a value"
    else complainNext "expected `,` or `]`"

/-- Whether an object has another key; then its opening quote is passed. -/
def anotherKey (isFirst : Bool) : Inspect Bool := do
  match ← nextFilled? with
  | none => complain "EOF while parsing an object"
  | some c =>
    if c = '\x7d' then return false
    else if isFirst then
      if c = '"' then
        advance
        return true
      else complainNext "key must be a string"
    else if c = ',' then
      advance
      match ← nextFilled? with
      | some '"' =>
        advance
        return true
      | some '\x7d' => complainNext "trailing comma"
      | some _ => complainNext "key must be a string"
      | none => complain "EOF while parsing a value"
    else complainNext "expected `,` or `\x7d`"

/-- The end of an array whose items are all known. -/
def endItems : Inspect Unit := do
  match ← nextFilled? with
  | some ']' => advance
  | some ',' =>
    advance
    if (← nextFilled?) = some ']' then complainNext "trailing comma"
    else complainNext "trailing characters"
  | some _ => complainNext "trailing characters"
  | none => complain "EOF while parsing a list"

/-! ## Values that are passed over -/

/-- A key of an object that is passed over. -/
def passKey : Inspect Unit := do
  match ← nextFilled? with
  | some '"' =>
    advance
    let _ ← string false
    colon
  | some _ => complainNext "key must be a string"
  | none => complain "EOF while parsing an object"

mutual
def passValue : Nat → Inspect Unit
  | 0 => return
  | fuel + 1 => do
    let c ← start
    if c = '"' then
      advance
      let _ ← string false
    else if c = '-' || isDigit c then
      let _ ← number false
    else if c = '[' || c = '\x7b' then
      advance
      passParts fuel (c = '\x7b') true
    else
      let _ ← described c

/-- The items of an array, or the members of an object. -/
def passParts : Nat → Bool → Bool → Inspect Unit
  | 0, _, _ => return
  | fuel + 1, isObject, isFirst => do
    match ← nextFilled? with
    | none => complain ("EOF while parsing " ++ if isObject then "an object" else "a list")
    | some c =>
      if c = (if isObject then '\x7d' else ']') then advance
      else
        if !isFirst then
          if c = ',' then advance
          else complainNext ("expected `,` or `" ++ (if isObject then "\x7d" else "]") ++ "`")
        if isObject then passKey
        passValue fuel
        passParts fuel isObject false
end

/-! ## Shapes -/

/-- Names as they are listed for a choice. -/
def choices (names : List String) : String :=
  "one of " ++ ", ".intercalate (names.map fun n => "`" ++ n ++ "`")

/-- A name behind its opening quote. -/
def oneOf (names : List String) : Inspect Unit := do
  let s ← string true
  if !names.contains s then
    complain ("unknown variant `" ++ s ++ "`, expected " ++ choices names)

/-- A name, or an object with it as key and no value. -/
def name (names : List String) : Inspect Unit := do
  match ← start with
  | '"' =>
    advance
    oneOf names
  | '\x7b' =>
    advance
    match ← start with
    | '"' =>
      advance
      oneOf names
    | c => otherType c "variant identifier"
    colon
    match ← start with
    | 'n' => word "null".toList
    | c => otherType c "unit"
    match ← nextFilled? with
    | some '\x7d' => advance
    | some _ => complain "expected value"
    | none => complain "EOF while parsing an object"
  | _ => complainNext "expected value"

/-- A complaint about a whole object, at its end if it is near. -/
def complainOfMembers {α : Type} (what : String) : Inspect α := do
  if (← nextFilled?) = some '\x7d' then advance
  complain what

mutual
def shape : Nat → Shape → Inspect Unit
  | 0, _ => return
  | _ + 1, .string => do
    match ← start with
    | '"' =>
      advance
      let _ ← string true
    | c => otherType c "a string"
  | _ + 1, .name names => name names
  | fuel + 1, .list item => do
    match ← start with
    | '[' =>
      advance
      items fuel item true
    | c => otherType c "a sequence"
  | fuel + 1, .record title fields => do
    match ← start with
    | '[' =>
      advance
      positions fuel title fields.length 0 fields
    | '\x7b' =>
      advance
      members fuel fields [] true
    | c => otherType c ("struct " ++ title)

def items : Nat → Shape → Bool → Inspect Unit
  | 0, _, _ => return
  | fuel + 1, item, isFirst => do
    if ← anotherItem isFirst then
      shape fuel item
      items fuel item false
    else advance

/-- The fields of a record that is written as an array; `i` were read before. -/
def positions : Nat → String → Nat → Nat → List (String × Shape × Bool) → Inspect Unit
  | 0, _, _, _, _ => return
  | _ + 1, _, _, _, [] => endItems
  | fuel + 1, title, n, i, (_, s, optional) :: fields => do
    if ← anotherItem (i = 0) then
      shape fuel s
      positions fuel title n (i + 1) fields
    else if optional then positions fuel title n i fields
    else
      advance
      complain ("invalid length " ++ toString i ++ ", expected struct " ++ title ++ " with "
        ++ toString n ++ " element" ++ if n = 1 then "" else "s")

/-- The members of a record; `seen` are the fields met before. -/
def members : Nat → List (String × Shape × Bool) → List String → Bool → Inspect Unit
  | 0, _, _, _ => return
  | fuel + 1, fields, seen, isFirst => do
    if ← anotherKey isFirst then
      let key ← string true
      match fields.lookup key with
      | some (s, _) =>
        if seen.contains key then complainOfMembers ("duplicate field `" ++ key ++ "`")
        colon
        shape fuel s
        members fuel fields (key :: seen) false
      | none =>
        colon
        passValue fuel
        members fuel fields seen false
    else
      match fields.find? fun (n, _, optional) => !optional && !seen.contains n with
      | some (n, _) => complainOfMembers ("missing field `" ++ n ++ "`")
      | none => advance
end

def whole (s : Shape) : Inspect Unit := do
  let n := (← get).rest.length
  shape (2 * n + 2) s
  if (← nextFilled?).isSome then complainNext "trailing characters"

end Inspect

/-- What is said of a text that does not have a shape. -/
def complaint? (s : Shape) (text : List Char) : Option String :=
  match (Inspect.whole s).run ⟨text, 1, 0⟩ with
  | .ok _ => none
  | .error e => some e

end DefectScan.Json
