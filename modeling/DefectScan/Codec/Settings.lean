import DefectScan.Json.Decode
import DefectScan.Settings

/-!
# The JSON form of settings

Every setting may be absent; then it has its default.
-/

namespace DefectScan

open Json (Decoder)
open Json.Decode

namespace DetectionSettings

def encode (s : DetectionSettings) : Json :=
  .obj [("lexical", .bool s.lexical), ("structural", .bool s.structural),
    ("classifier", .bool s.classifier), ("parallel", .bool s.parallel)]

def fields : List Field :=
  ["lexical", "structural", "classifier", "parallel"].map fun n => defaulted n bool

def decode : Decoder DetectionSettings := fun d => do
  let r ← record fields d
  let other : DetectionSettings := {}
  return {
    lexical := ← fieldOr r "lexical" bool other.lexical
    structural := ← fieldOr r "structural" bool other.structural
    classifier := ← fieldOr r "classifier" bool other.classifier
    parallel := ← fieldOr r "parallel" bool other.parallel }

end DetectionSettings

namespace ClassifierSettings

def encode (s : ClassifierSettings) : Json :=
  .obj [("max_features", .int s.maxFeatures), ("epochs", .int s.epochs),
    ("learning_rate", .real s.learningRate), ("l2_penalty", .real s.l2Penalty),
    ("threshold", .real s.threshold), ("model_path", .str s.modelPath)]

def fields : List Field :=
  [defaulted "max_features" count, defaulted "epochs" count, defaulted "learning_rate" float,
    defaulted "l2_penalty" float, defaulted "threshold" float, defaulted "model_path" string]

def decode : Decoder ClassifierSettings := fun d => do
  let r ← record fields d
  let other : ClassifierSettings := {}
  return {
    maxFeatures := ← fieldOr r "max_features" count other.maxFeatures
    epochs := ← fieldOr r "epochs" count other.epochs
    learningRate := ← fieldOr r "learning_rate" float other.learningRate
    l2Penalty := ← fieldOr r "l2_penalty" float other.l2Penalty
    threshold := ← fieldOr r "threshold" float other.threshold
    modelPath := ← fieldOr r "model_path" string other.modelPath }

end ClassifierSettings

namespace StorageSettings

def encode (s : StorageSettings) : Json :=
  .obj [("enabled", .bool s.enabled), ("database_path", .str s.databasePath)]

def fields : List Field := [defaulted "enabled" bool, defaulted "database_path" string]

def decode : Decoder StorageSettings := fun d => do
  let r ← record fields d
  let other : StorageSettings := {}
  return {
    enabled := ← fieldOr r "enabled" bool other.enabled
    databasePath := ← fieldOr r "database_path" string other.databasePath }

end StorageSettings

namespace Settings

def encode (s : Settings) : Json :=
  .obj [("detection", s.detection.encode), ("classifier", s.classifier.encode),
    ("storage", s.storage.encode)]

def fields : List Field :=
  [defaulted "detection" DetectionSettings.decode, defaulted "classifier" ClassifierSettings.decode,
    defaulted "storage" StorageSettings.decode]

def decode : Decoder Settings := fun d => do
  let r ← record fields d
  return {
    detection := ← fieldOr r "detection" DetectionSettings.decode {}
    classifier := ← fieldOr r "classifier" ClassifierSettings.decode {}
    storage := ← fieldOr r "storage" StorageSettings.decode {} }

end Settings

end DefectScan
