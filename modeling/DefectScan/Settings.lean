/-!
# Settings

What can be set, and what holds where nothing is set.
-/

namespace DefectScan

/-- Which detectors run. -/
structure DetectionSettings where
  lexical : Bool := true
  structural : Bool := true
  classifier : Bool := true
  /-- Whether they run side by side. The order of the findings is the same. -/
  parallel : Bool := false

/-- How the classifier is trained, and where its model is kept. -/
structure ClassifierSettings where
  /-- The largest number of terms. -/
  maxFeatures : Nat := 1000
  epochs : Nat := 500
  learningRate : Float := 1.0
  l2Penalty : Float := 0.001
  /-- The probability from which on a category is reported. -/
  threshold : Float := 0.5
  modelPath : String := "models/bug_detector.json"

/-- Where findings are recorded. -/
structure StorageSettings where
  enabled : Bool := true
  databasePath : String := "bugs.db"

structure Settings where
  detection : DetectionSettings := {}
  classifier : ClassifierSettings := {}
  storage : StorageSettings := {}

end DefectScan
