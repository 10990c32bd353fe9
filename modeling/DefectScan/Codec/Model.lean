import DefectScan.Codec.Finding
import DefectScan.Learning.Model
import DefectScan.Sha256

/-!
# The written form of models

A model is written as JSON in lines. What is read is checked, so that a model that was read can be
used.
-/

namespace DefectScan.Learning

open Json (Decoder)
open Json.Decode

namespace Vectorizer

def encode (v : Vectorizer) : Json :=
  .obj [("terms", .arr (v.terms.map .str)), ("idf", .arr (v.idf.map .real))]

def fields : List Field := [required "terms" (list string), required "idf" (list float)]

def decode : Decoder Vectorizer := fun d => do
  let r ← record fields d
  return { terms := ← field r "terms" (list string), idf := ← field r "idf" (list float) }

end Vectorizer

namespace LogisticUnit

def encode (u : LogisticUnit) : Json :=
  .obj [("weights", .arr (u.weights.map .real)), ("bias", .real u.bias)]

def fields : List Field := [required "weights" (list float), required "bias" float]

def decode : Decoder LogisticUnit := fun d => do
  let r ← record fields d
  return { weights := ← field r "weights" (list float), bias := ← field r "bias" float }

end LogisticUnit

/-- A number that fits into 32 bits. -/
def smallCount : Decoder Nat := fun d => do
  let n ← count d
  if n < Nat.pow 2 32 then return n else throw .mismatch

def timestamp : Decoder Timestamp := fun d => do
  match Timestamp.ofText? (← string d) with
  | some t => return t
  | none => throw .mismatch

namespace Model

def encode (m : Model) : Json :=
  .obj [("format_version", .int m.formatVersion), ("labels", .arr (m.labels.map Category.encode)),
    ("threshold", .real m.threshold), ("vectorizer", m.vectorizer.encode),
    ("units", .arr (m.units.map LogisticUnit.encode)),
    ("trained_examples", .int m.trainedExamples), ("trained_at", .str m.trainedAt.text)]

def fields : List Field :=
  [required "format_version" smallCount, required "labels" (list Category.decode),
    required "threshold" float, required "vectorizer" Vectorizer.decode,
    required "units" (list LogisticUnit.decode), required "trained_examples" count,
    required "trained_at" timestamp]

def decode : Decoder Model := fun d => do
  let r ← record fields d
  return {
    formatVersion := ← field r "format_version" smallCount
    labels := ← field r "labels" (list Category.decode)
    threshold := ← field r "threshold" float
    vectorizer := ← field r "vectorizer" Vectorizer.decode
    units := ← field r "units" (list LogisticUnit.decode)
    trainedExamples := ← field r "trained_examples" count
    trainedAt := ← field r "trained_at" timestamp }

/-- The text of a model. -/
def text (m : Model) : String := m.encode.pretty

/-- Reads and checks a model. -/
def ofText (text : String) : Except Error Model :=
  match Json.decodeText decode text.toList with
  | .error f => .error (.json f)
  | .ok m =>
    match m.flaw? with
    | some reason => .error (.incompatible reason)
    | none => .ok m

/-- Reads and checks a model from bytes; bytes that are no text hold no model. -/
def ofBytes (bytes : ByteArray) : Except Error Model :=
  match String.fromUTF8? bytes with
  | some s => ofText s
  | none => .error (.json .malformed)

def checksum (m : Model) : String := Sha256.hex m.text.toUTF8

end Model

end DefectScan.Learning
