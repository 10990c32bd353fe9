/-!
# Logistic units

A unit gives the probability of a class from the features of a text: the logistic function of a
weighted sum. It is fitted by gradient descent over all rows at once, from zero weights and with the
rows in order, so the result depends on the input alone.
-/

namespace DefectScan.Learning

structure TrainingParams where
  epochs : Nat := 500
  learningRate : Float := 1
  /-- A penalty on the weights, not on the bias. -/
  l2Penalty : Float := 0.001

structure LogisticUnit where
  weights : List Float
  bias : Float

/-- The logistic function. Only powers of numbers below zero are taken, so nothing overflows. -/
def sigmoid (z : Float) : Float :=
  if z >= 0 then 1 / (1 + Float.exp (-z))
  else
    let e := Float.exp z
    e / (1 + e)

/-- The sum of products, from left to right. -/
def dot (s : Float) : List Float → List Float → Float
  | a :: as, b :: bs => dot (s + a * b) as bs
  | _, _ => s

/-- Adds a multiple of a row to a vector. -/
def addScaled (e : Float) : List Float → List Float → List Float
  | g :: gs, x :: xs => (g + e * x) :: addScaled e gs xs
  | gs, _ => gs

namespace LogisticUnit

def probability (u : LogisticUnit) (row : List Float) : Float :=
  sigmoid (dot (-0.0) u.weights row + u.bias)

/-- The sums of the gradients over the rows, of the weights and of the bias. -/
def gradient (u : LogisticUnit) : List (List Float) → List Bool → List Float → Float →
    List Float × Float
  | row :: rows, target :: targets, gs, g =>
    let error := u.probability row - if target then 1 else 0
    gradient u rows targets (addScaled error gs row) (g + error)
  | _, _, gs, g => (gs, g)

/-- A step of all weights against their gradients. -/
def descend (rate penalty n : Float) : List Float → List Float → List Float
  | w :: ws, g :: gs => (w - rate * (g / n + penalty * w)) :: descend rate penalty n ws gs
  | ws, _ => ws

def epoch (params : TrainingParams) (features : List (List Float)) (targets : List Bool)
    (u : LogisticUnit) : LogisticUnit :=
  let n := features.length.toFloat
  let (gs, g) := u.gradient features targets (u.weights.map fun _ => 0) 0
  { weights := descend params.learningRate params.l2Penalty n u.weights gs
    bias := u.bias - params.learningRate * g / n }

def run (params : TrainingParams) (features : List (List Float)) (targets : List Bool) :
    Nat → LogisticUnit → LogisticUnit
  | 0, u => u
  | n + 1, u => run params features targets n (epoch params features targets u)

def fit (features : List (List Float)) (targets : List Bool) (params : TrainingParams) :
    LogisticUnit :=
  match features with
  | [] => ⟨[], 0⟩
  | row :: _ => run params features targets params.epochs ⟨row.map fun _ => 0, 0⟩

end LogisticUnit

end DefectScan.Learning
