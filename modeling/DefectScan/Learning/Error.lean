import DefectScan.Files.Basic
import DefectScan.Json.Doc

/-!
# What can go wrong with a model
-/

namespace DefectScan.Learning

inductive Error
  | modelNotFound (key : String)
  | notTrained
  | emptyCorpus
  | incompatible (reason : String)
  | invalidInput (reason : String)
  | file (e : FileError)
  | json (f : Json.Fault)
  /-- Examples that cannot be read, with what is said of them. -/
  | examples (f : Json.Fault) (complaint : String)
deriving DecidableEq, Repr

/-- What is said of a text that is not what it should be. -/
def faultText : Json.Fault → String
  | .truncated => "the text ends too early"
  | .malformed => "the text is not JSON"
  | .mismatch => "the text has another shape"

def Error.message : Error → String
  | modelNotFound key => "No trained model found at '" ++ key ++ "'"
  | notTrained => "Classifier has not been trained or loaded"
  | emptyCorpus => "Training corpus is empty"
  | incompatible reason => "Incompatible model: " ++ reason
  | invalidInput reason => "Invalid input: " ++ reason
  | file e => "IO error: " ++ e.message
  | json f => "Serialization error: " ++ faultText f
  | examples _ complaint => "Serialization error: " ++ complaint

end DefectScan.Learning
