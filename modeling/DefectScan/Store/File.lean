import DefectScan.Store.Basic

/-!
# Stores in files

A store is kept in a file as a line that says what the file is, and the tables in JSON behind it. An
empty file is an empty store, and a file is made where there is none.
-/

namespace DefectScan

open Json (Decoder)
open Json.Decode

namespace Sample

def encode (x : Sample) : Json :=
  .obj [("name", .str x.name), ("text", .str x.text), ("has_defects", .bool x.hasDefects)]

def fields : List Field :=
  [required "name" string, required "text" string, required "has_defects" bool]

def decode : Decoder Sample := fun d => do
  let r ← record fields d
  return ⟨← field r "name" string, ← field r "text" string, ← field r "has_defects" bool⟩

end Sample

namespace FindingRow

def encode (x : FindingRow) : Json :=
  .obj [("sample", .int x.sample), ("category", .str x.category),
    ("description", .str x.description), ("line", .int x.line), ("severity", .str x.severity),
    ("confidence", (x.confidence.map .real).getD .null), ("detector", .str x.detector)]

def fields : List Field :=
  [required "sample" integer, required "category" string, required "description" string,
    required "line" integer, required "severity" string, required "confidence" (optional float),
    required "detector" string]

def decode : Decoder FindingRow := fun d => do
  let r ← record fields d
  return {
    sample := ← field r "sample" integer
    category := ← field r "category" string
    description := ← field r "description" string
    line := ← field r "line" integer
    severity := ← field r "severity" string
    confidence := ← field r "confidence" (optional float)
    detector := ← field r "detector" string }

end FindingRow

namespace FixRow

def encode (x : FixRow) : Json :=
  .obj [("finding", .int x.finding), ("line", .int x.line), ("before", .str x.currentText),
    ("after", .str x.replacementText), ("edit", .str x.edit), ("note", .str x.note)]

def fields : List Field :=
  [required "finding" integer, required "line" integer, required "before" string,
    required "after" string, required "edit" string, required "note" string]

def decode : Decoder FixRow := fun d => do
  let r ← record fields d
  return {
    finding := ← field r "finding" integer
    line := ← field r "line" integer
    currentText := ← field r "before" string
    replacementText := ← field r "after" string
    edit := ← field r "edit" string
    note := ← field r "note" string }

end FixRow

namespace Store

namespace Table

variable {α : Type}

def encodeRow (encode : α → Json) (row : Int × α) : Json :=
  .obj [("id", .int row.1), ("row", encode row.2)]

def rowFields (decode : Decoder α) : List Field := [required "id" integer, required "row" decode]

def decodeRow (decode : Decoder α) : Decoder (Int × α) := fun d => do
  let r ← Json.Decode.record (rowFields decode) d
  return (← field r "id" integer, ← field r "row" decode)

def encode (encodeValue : α → Json) (t : Table α) : Json :=
  .obj [("last", .int t.last), ("rows", .arr (t.rows.map (encodeRow encodeValue)))]

def fields (decodeValue : Decoder α) : List Field :=
  [required "last" integer, required "rows" (list (decodeRow decodeValue))]

/-- Rows that are not in the order of their numbers are no table. -/
def decode (decodeValue : Decoder α) : Decoder (Table α) := fun d => do
  let r ← Json.Decode.record (fields decodeValue) d
  let last ← field r "last" integer
  match ofRows? (← field r "rows" (list (decodeRow decodeValue))) last with
  | some t => return t
  | none => .error .mismatch

end Table

def encode (s : Store) : Json :=
  .obj [("samples", s.samples.encode Sample.encode),
    ("findings", s.findings.encode FindingRow.encode),
    ("fixes", s.fixes.encode FixRow.encode)]

def fields : List Field :=
  [required "samples" (Table.decode Sample.decode),
    required "findings" (Table.decode FindingRow.decode),
    required "fixes" (Table.decode FixRow.decode)]

def decode : Decoder Store := fun d => do
  let r ← Json.Decode.record fields d
  return {
    samples := ← field r "samples" (Table.decode Sample.decode)
    findings := ← field r "findings" (Table.decode FindingRow.decode)
    fixes := ← field r "fixes" (Table.decode FixRow.decode) }

/-- The first line of a file that holds a store. -/
def header : String := "finding store, version 1\n"

def text (s : Store) : String := header ++ s.encode.compact ++ "\n"

def ofText? (s : String) : Option Store :=
  let cs := s.toList
  if header.toList.isPrefixOf cs then
    (Json.decodeText decode (cs.drop header.length)).toOption
  else none

def ofBytes (bytes : ByteArray) : Except StoreError Store :=
  if bytes.isEmpty then .ok {}
  else
    match (String.fromUTF8? bytes).bind ofText? with
    | some s => .ok s
    | none => .error .notStore

variable {m : Type → Type} [Monad m] [FileSystem m]

/-- Reads the store in a file. -/
def load (path : String) : m (Except StoreError Store) := do
  match ← Files.makeParent path with
  | .error e => return .error (.file e)
  | .ok _ =>
    match ← FileSystem.read path with
    | .ok bytes => return ofBytes bytes
    | .error .notFound =>
      match ← FileSystem.write path ByteArray.empty with
      | .ok _ => return .ok {}
      | .error _ => return .error (.cannotOpen path)
    | .error _ => return .error (.cannotOpen path)

/-- Writes the store into its file. -/
def save (s : Store) (path : String) : m (Except StoreError Unit) := do
  match ← FileSystem.write path s.text.toUTF8 with
  | .ok _ => return .ok ()
  | .error _ => return .error (.cannotOpen path)

end Store

end DefectScan
