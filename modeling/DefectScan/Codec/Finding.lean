import DefectScan.Finding
import DefectScan.Json.Decode

/-!
# The JSON form of findings, fixes and examples

Names are written as strings, records as objects with their fields in a fixed order. A confidence is
written only if there is one.
-/

namespace DefectScan

open Json (Decoder Fault)
open Json.Decode

def Category.encode (c : Category) : Json := .str c.name

def Category.decode : Decoder Category := Json.Decode.name Category.ofName?

def Severity.encode (s : Severity) : Json := .str s.name

def Severity.decode : Decoder Severity := Json.Decode.name Severity.ofName?

def DetectorKind.encode (d : DetectorKind) : Json := .str d.name

def DetectorKind.decode : Decoder DetectorKind := Json.Decode.name DetectorKind.ofName?

def Edit.encode (e : Edit) : Json := .str e.name

def Edit.decode : Decoder Edit := Json.Decode.name Edit.ofName?

namespace Finding

def encode (f : Finding) : Json :=
  .obj ([("category", f.category.encode), ("line", .int f.line),
      ("description", .str f.description), ("severity", f.severity.encode)]
    ++ f.confidence.toList.map (fun x => ("confidence", .real x))
    ++ [("detector", f.detector.encode)])

def fields : List Field :=
  [required "category" Category.decode, required "line" count, required "description" string,
    required "severity" Severity.decode, defaulted "confidence" (optional float),
    required "detector" DetectorKind.decode]

def decode : Decoder Finding := fun d => do
  let r ← record fields d
  return {
    category := ← field r "category" Category.decode
    line := ← field r "line" count
    description := ← field r "description" string
    severity := ← field r "severity" Severity.decode
    confidence := ← fieldOr r "confidence" (optional float) none
    detector := ← field r "detector" DetectorKind.decode }

end Finding

namespace Fix

def encode (f : Fix) : Json :=
  .obj [("category", f.category.encode), ("applies_to_line", .int f.line),
    ("original_text", .str f.currentText), ("replacement_text", .str f.replacementText),
    ("edit", f.edit.encode), ("note", .str f.note)]

def fields : List Field :=
  [required "category" Category.decode, required "applies_to_line" count,
    required "original_text" string, required "replacement_text" string,
    required "edit" Edit.decode, required "note" string]

def decode : Decoder Fix := fun d => do
  let r ← record fields d
  return {
    category := ← field r "category" Category.decode
    line := ← field r "applies_to_line" count
    currentText := ← field r "original_text" string
    replacementText := ← field r "replacement_text" string
    edit := ← field r "edit" Edit.decode
    note := ← field r "note" string }

end Fix

namespace Example

def encode (e : Example) : Json :=
  .obj [("source_text", .str e.sourceText), ("labels", .arr (e.labels.map Category.encode))]

def fields : List Field :=
  [required "source_text" string, defaulted "labels" (list Category.decode)]

def decode : Decoder Example := fun d => do
  let r ← record fields d
  return labelled (← field r "source_text" string) (← fieldOr r "labels" (list Category.decode) [])

end Example

end DefectScan
