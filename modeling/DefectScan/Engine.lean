import DefectScan.Learning.Classifier
import DefectScan.Lexical
import DefectScan.Structural

/-!
# The engine

An engine runs detectors over a text and puts their findings one behind the other, in the order of
the detectors. A detector that fails is itself reported, and the others still run. Detectors that run
side by side give the same findings; a breakdown is then contained and reported, while in sequence it
ends the analysis.
-/

namespace DefectScan

/-- Why a detector has no findings to give. -/
inductive DetectError
  | parse (message : String) (line column : Nat)
  | grammar (message : String)
  | noTree
  | other (message : String)
deriving DecidableEq, Repr

def DetectError.message : DetectError → String
  | parse message line column =>
    message ++ " at line " ++ toString line ++ ", column " ++ toString column
  | grammar message => "failed to load C grammar: " ++ message
  | noTree => "parser returned no tree"
  | other message => message

/-- How a detector ends. -/
inductive Outcome
  | found (findings : List Finding)
  | failed (error : DetectError)
  | brokeDown

structure Detector where
  name : String
  detect : String → Outcome

namespace Detector

def lexical : Detector := ⟨DetectorKind.lexical.name, fun text => .found (Lexical.scan text)⟩

def structural : Detector where
  name := DetectorKind.structural.name
  detect text :=
    match Structural.scan text with
    | some found => .found found
    | none => .failed .noTree

def classifier (c : Learning.Classifier) : Detector :=
  ⟨DetectorKind.classifier.name, fun text => .found (c.predict text)⟩

end Detector

structure Engine where
  detectors : List Detector
  parallel : Bool := false

namespace Engine

/-- The detectors that are switched on. -/
def standard (s : DetectionSettings) (c : Learning.Classifier) : Engine where
  detectors :=
    (if s.lexical then [.lexical] else []) ++ (if s.structural then [.structural] else [])
      ++ (if s.classifier then [.classifier c] else [])
  parallel := s.parallel

/-- What is reported of a detector that failed. -/
def failure (name : String) (e : DetectError) : Finding :=
  .atLine .syntaxError 0 (name ++ " detector failed: " ++ e.message) .engine

/-- The findings of one detector, or nothing if it takes the analysis down with it. -/
def findings? (parallel : Bool) (d : Detector) (text : String) : Option (List Finding) :=
  match d.detect text with
  | .found fs => some fs
  | .failed e => some [failure d.name e]
  | .brokeDown => if parallel then some [failure d.name (.other "detector panicked")] else none

/-- The findings of all detectors. -/
def analyze? (e : Engine) (text : String) : Option (List Finding) :=
  (e.detectors.mapM fun d => findings? e.parallel d text).map List.flatten

end Engine

end DefectScan
