import DefectScan.Codec.Model
import DefectScan.Learning.ModelStore

/-!
# The classifier

A classifier has a model once it was trained or loaded. What fails leaves it as it was.
-/

namespace DefectScan.Learning

structure Classifier where
  settings : ClassifierSettings
  model : Option Model := none

/-- What a training has seen. -/
structure TrainingSummary where
  examples : Nat
  vocabularySize : Nat
  /-- How many examples have each category. -/
  labelCounts : List (Category × Nat)

namespace Classifier

def isTrained (c : Classifier) : Bool := c.model.isSome

/-- How many examples have each category. -/
def labelCounts (examples : List Example) : List (Category × Nat) :=
  Category.all.map fun c => (c, examples.countP fun e => e.labels.contains c)

/-- Trains a new model, in place of the old one. -/
def train (c : Classifier) (examples : List Example) (now : Timestamp) :
    Except Error (Classifier × TrainingSummary) := do
  let m ← Model.fit examples c.settings now
  return ({ c with model := some m }, ⟨examples.length, m.vectorizer.size, labelCounts examples⟩)

/-- A finding for a category that is likely. -/
def prediction (category : Category) (p : Float) : Finding :=
  .predicted category p
    ("Potential " ++ category.name ++ " detected (confidence " ++ Decimal.fixed 2 p ++ ")")

/-- The findings of the model; without a model there are none. -/
def predict (c : Classifier) (text : String) : List Finding :=
  match c.model with
  | none => []
  | some m => (m.positive text).map fun (category, p) => prediction category p

/-- Takes the model that some bytes hold. -/
def restore (c : Classifier) (bytes : ByteArray) : Except Error Classifier := do
  return { c with model := some (← Model.ofBytes bytes) }

variable {m : Type → Type} [Monad m]

/-- Writes the model. -/
def save (c : Classifier) (store : ModelStore m) (key : String) : m (Except Error Unit) := do
  match c.model with
  | none => return .error .notTrained
  | some model => return (← store.write key model.text.toUTF8).mapError .file

/-- Reads a model, in place of the one before. -/
def load (c : Classifier) (store : ModelStore m) (key : String) :
    m (Except Error Classifier) := do
  match ← store.read key with
  | .error e => return .error (.file e)
  | .ok none => return .error (.modelNotFound key)
  | .ok (some bytes) => return c.restore bytes

end Classifier

end DefectScan.Learning
