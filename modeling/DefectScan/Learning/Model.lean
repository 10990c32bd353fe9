import DefectScan.Decimal.Format
import DefectScan.Finding
import DefectScan.Learning.Error
import DefectScan.Learning.Logistic
import DefectScan.Learning.Vectorizer
import DefectScan.Settings
import DefectScan.Timestamp

/-!
# Models

A model has one logistic unit for each category, all over the same features. `Model.fit` makes one
from labelled examples; a model that comes from elsewhere is checked by `Model.flaw?`.
-/

namespace DefectScan.Learning

/-- The version of the written form. -/
def formatVersion : Nat := 1

structure Model where
  formatVersion : Nat
  labels : List Category
  threshold : Float
  vectorizer : Vectorizer
  units : List LogisticUnit
  trainedExamples : Nat
  trainedAt : Timestamp

namespace Model

/-- What is wrong with the input of a training. -/
def inputFlaw? (examples : List Example) (s : ClassifierSettings) : Option Error :=
  if examples.isEmpty then some .emptyCorpus
  else if s.maxFeatures = 0 then some (.invalidInput "max_features must be positive")
  else if !(s.threshold >= 0 && s.threshold <= 1) then
    some (.invalidInput ("threshold " ++ Decimal.plain s.threshold ++ " is outside [0, 1]"))
  else none

/-- Trains a unit for each category on labelled examples. -/
def fit (examples : List Example) (s : ClassifierSettings) (now : Timestamp) :
    Except Error Model :=
  match inputFlaw? examples s with
  | some e => .error e
  | none =>
    let documents := examples.map (·.sourceText)
    let vectorizer := Vectorizer.fit documents s.maxFeatures
    let features := documents.map vectorizer.transform
    let params : TrainingParams := ⟨s.epochs, s.learningRate, s.l2Penalty⟩
    .ok {
      formatVersion := Learning.formatVersion
      labels := Category.all
      threshold := s.threshold
      vectorizer
      units := Category.all.map fun c =>
        LogisticUnit.fit features (examples.map fun e => e.labels.contains c) params
      trainedExamples := examples.length
      trainedAt := now }

/-- The probability of each category. -/
def probabilities (m : Model) (text : String) : List (Category × Float) :=
  let row := m.vectorizer.transform text
  (m.labels.zip m.units).map fun (c, u) => (c, u.probability row)

/-- The categories whose probability reaches the threshold. -/
def positive (m : Model) (text : String) : List (Category × Float) :=
  (m.probabilities text).filter fun (_, p) => p >= m.threshold

/-- Why a model cannot be used here. -/
def flaw? (m : Model) : Option String :=
  if m.formatVersion ≠ Learning.formatVersion then
    some ("format version " ++ toString m.formatVersion ++ " (expected "
      ++ toString Learning.formatVersion ++ ")")
  else if m.labels ≠ Category.all then some "label list does not match the bug taxonomy"
  else if m.units.length ≠ m.labels.length then
    some (toString m.units.length ++ " units for " ++ toString m.labels.length ++ " labels")
  else
    match m.vectorizer.flaw? with
    | some f => some f
    | none =>
      (m.units.find? (·.weights.length ≠ m.vectorizer.size)).map fun u =>
        "unit has " ++ toString u.weights.length ++ " weights for a " ++ toString m.vectorizer.size
          ++ "-term vocabulary"

end Model

end DefectScan.Learning
