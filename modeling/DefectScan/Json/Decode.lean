import DefectScan.Json.Doc
import DefectScan.Json.Value

/-!
# Values from JSON documents

A decoder turns a document into a value or gives the first fault, in the order of the text. Records
are written as objects, in any order and with members that are not known, or as arrays of their
fields. Names are written as strings, or as an object with the name as key and no value.
-/

namespace DefectScan.Json

abbrev Decoder (α : Type) := Doc → Except Fault α

def Decoder.fault? {α : Type} (decode : Decoder α) (d : Doc) : Option Fault :=
  match decode d with
  | .ok _ => none
  | .error f => some f

/-- The fault of a value that is of another type than asked for. -/
def Doc.wrongType : Doc → Fault
  | .broken b => b.used
  | .str none => .malformed
  | .num n => if n.toFloat?.isSome then .mismatch else .malformed
  | _ => .mismatch

namespace Decode

/-- One more than the largest number that counts and lines can be. -/
def countLimit : Nat := Nat.pow 2 64

def string : Decoder String
  | .str (some s) => .ok s
  | d => .error d.wrongType

def bool : Decoder Bool
  | .bool b => .ok b
  | d => .error d.wrongType

/-- A number without sign, point and exponent. -/
def count : Decoder Nat
  | .num n =>
    if n.whole && !n.negative && n.value.digits < countLimit then .ok n.value.digits
    else .error (Doc.num n).wrongType
  | d => .error d.wrongType

/-- A number without point and exponent. -/
def integer : Decoder Int
  | .num n =>
    if n.whole then .ok (if n.negative then -(n.value.digits : Int) else n.value.digits)
    else .error (Doc.num n).wrongType
  | d => .error d.wrongType

def float : Decoder Float
  | .num n =>
    match n.toFloat? with
    | some x => .ok x
    | none => .error .malformed
  | d => .error d.wrongType

def optional {α : Type} (decode : Decoder α) : Decoder (Option α)
  | .null => .ok none
  | d => (decode d).map some

def items {α : Type} (decode : Decoder α) : List Doc → Except Fault (List α)
  | [] => .ok []
  | d :: ds => do
    let x ← decode d
    let xs ← items decode ds
    return x :: xs

def list {α : Type} (decode : Decoder α) : Decoder (List α)
  | .arr ds stop => do
    let xs ← items decode ds
    match stop with
    | some b => .error b.used
    | none => return xs
  | d => .error d.wrongType

/-- A value that is known by its name. -/
def name {α : Type} (ofName? : String → Option α) : Decoder α
  | .str s => named s
  | .obj [] stop =>
    match stop with
    | some b => .error b.variant
    | none => .error .malformed
  | .obj ((key, value) :: rest) stop => do
    let x ← named key
    match value with
    | .null =>
      match rest, stop with
      | _ :: _, _ => .error .malformed
      | [], some b => .error b.variant
      | [], none => return x
    | d => .error d.wrongType
  | .broken b => .error b.variant
  | _ => .error .malformed
where
  named : Option String → Except Fault α
  | none => .error .malformed
  | some s =>
    match ofName? s with
    | some x => .ok x
    | none => .error .mismatch

/-! ## Records -/

/-- A field of a record: its name, how its value is checked, and whether it may be absent. -/
structure Field where
  name : String
  fault? : Doc → Option Fault
  optional : Bool

def required {α : Type} (name : String) (decode : Decoder α) : Field := ⟨name, decode.fault?, false⟩

def defaulted {α : Type} (name : String) (decode : Decoder α) : Field := ⟨name, decode.fault?, true⟩

/-- The first fault in the members of an object; `seen` are the fields met before. -/
def memberFault (fields : List Field) :
    List (Option String × Doc) → List String → Option Break → Option Fault
  | [], seen, stop =>
    match stop with
    | some b => some b.used
    | none => if fields.all fun f => f.optional || seen.contains f.name then none else some .mismatch
  | (none, _) :: _, _, _ => some .malformed
  | (some key, d) :: rest, seen, stop =>
    match fields.find? (·.name = key) with
    | some f =>
      if seen.contains key then some .mismatch
      else (f.fault? d).or (memberFault fields rest (key :: seen) stop)
    | none => d.passedFault.or (memberFault fields rest seen stop)

/-- The first fault in a record that is written as an array. -/
def positionFault : List Field → List Doc → Option Break → Option Fault
  | [], [], stop => stop.map (·.used)
  | [], _ :: _, _ => some .malformed
  | f :: fs, d :: ds, stop => (f.fault? d).or (positionFault fs ds stop)
  | f :: fs, [], stop =>
    match stop with
    | some b => some b.used
    | none => if f.optional then positionFault fs [] none else some .mismatch

/-- The documents of the fields of a record that has no fault. -/
def record (fields : List Field) : Decoder (List (String × Doc))
  | .obj members stop =>
    match memberFault fields members [] stop with
    | some f => .error f
    | none => .ok (members.filterMap fun (key, d) => key.map fun k => (k, d))
  | .arr ds stop =>
    match positionFault fields ds stop with
    | some f => .error f
    | none => .ok ((fields.map (·.name)).zip ds)
  | d => .error d.wrongType

def field {α : Type} (record : List (String × Doc)) (name : String) (decode : Decoder α) :
    Except Fault α :=
  match record.lookup name with
  | some d => decode d
  | none => .error .mismatch

def fieldOr {α : Type} (record : List (String × Doc)) (name : String) (decode : Decoder α)
    (other : α) : Except Fault α :=
  match record.lookup name with
  | some d => decode d
  | none => .ok other

end Decode

/-- Decodes a whole text. -/
def decodeText {α : Type} (decode : Decoder α) (text : List Char) : Except Fault α :=
  match readDoc text with
  | (d, rest) =>
    match decode d with
    | .error f => .error f
    | .ok x =>
      match rest with
      | some rest => if (skipBlanks rest).isEmpty then .ok x else .error .malformed
      | none => .error .malformed

/-! ## Values of any type -/

/-- How deep arrays and objects may be nested. -/
def maxDepth : Nat := 128

/-- A whole number where it fits into 64 bits, else a real one. -/
def numberValue (n : Numeral) : Except Fault Json :=
  let digits : Int := n.value.digits
  if n.whole && !n.negative && digits < Nat.pow 2 64 then .ok (.int digits)
  else if n.whole && n.negative && 0 < digits && digits ≤ Nat.pow 2 63 then .ok (.int (-digits))
  else
    match n.toFloat? with
    | some x => .ok (.real x)
    | none => .error .malformed

/-- Sets a member; the last value of a key is kept. -/
def setMember (members : List (String × Json)) (key : String) (x : Json) : List (String × Json) :=
  if members.any (·.1 = key) then members.map fun (k, y) => if k = key then (k, x) else (k, y)
  else members ++ [(key, x)]

mutual
def valueAt (depth : Nat) : Decoder Json
  | .null => .ok .null
  | .bool b => .ok (.bool b)
  | .num n => numberValue n
  | .str (some s) => .ok (.str s)
  | .str none => .error .malformed
  | .arr ds stop => do
    if depth = 0 then throw .malformed
    let xs ← valuesAt (depth - 1) ds
    match stop with
    | some b => .error b.used
    | none => return .arr xs
  | .obj ds stop => do
    if depth = 0 then throw .malformed
    let xs ← membersAt (depth - 1) ds []
    match stop with
    | some b => .error b.used
    | none => return .obj xs
  | .broken b => .error b.used

def valuesAt (depth : Nat) : List Doc → Except Fault (List Json)
  | [] => .ok []
  | d :: ds => do
    let x ← valueAt depth d
    let xs ← valuesAt depth ds
    return x :: xs

def membersAt (depth : Nat) : List (Option String × Doc) → List (String × Json) →
    Except Fault (List (String × Json))
  | [], acc => .ok acc
  | (none, _) :: _, _ => .error .malformed
  | (some k, d) :: ds, acc => do
    let x ← valueAt depth d
    membersAt depth ds (setMember acc k x)
end

/-- Any JSON value. -/
def Decode.value : Decoder Json := valueAt (maxDepth - 1)

end DefectScan.Json
