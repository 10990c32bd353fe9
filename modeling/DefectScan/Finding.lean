import DefectScan.Category

/-!
# Findings and fixes

A finding says that a category of defect is likely in a text, on a line or in the file as a whole
(line 0). A fix proposes another text for one line. Findings carry no time and no number, so that
two scans of one text can be compared.
-/

namespace DefectScan

/-- What made a finding. -/
inductive DetectorKind
  | lexical
  | structural
  | classifier
  /-- Reports on detectors that failed. -/
  | engine
deriving DecidableEq, Repr

namespace DetectorKind

def all : List DetectorKind := [lexical, structural, classifier, engine]

def name : DetectorKind → String
  | lexical => "lexical"
  | structural => "structural"
  | classifier => "classifier"
  | engine => "engine"

def ofName? (s : String) : Option DetectorKind := all.find? (·.name = s)

def parse (s : String) : Except NameError DetectorKind :=
  match ofName? s with
  | some x => .ok x
  | none => .error (.detector s)

theorem ofName?_name (d : DetectorKind) : ofName? d.name = some d := by cases d <;> decide

end DetectorKind

structure Finding where
  category : Category
  /-- The line, counted from 1, or 0 for the file as a whole. -/
  line : Nat
  description : String
  severity : Severity
  /-- How likely the finding is, where that was estimated. -/
  confidence : Option Float
  detector : DetectorKind

/-- A number brought into the unit interval; what is no number stays as it is. -/
def clampUnit (x : Float) : Float := if x < 0 then 0 else if x > 1 then 1 else x

namespace Finding

/-- A finding whose severity is that of its category. -/
def atLine (category : Category) (line : Nat) (description : String) (detector : DetectorKind) :
    Finding :=
  { category, line, description, severity := category.severity, confidence := none, detector }

/-- A finding on the file as a whole, with its probability. -/
def predicted (category : Category) (confidence : Float) (description : String) : Finding :=
  { category, line := 0, description, severity := category.severity
    confidence := some (clampUnit confidence), detector := .classifier }

def isFileLevel (f : Finding) : Bool := f.line = 0

end Finding

/-- How the text of a fix relates to the line. -/
inductive Edit
  | replaceLine
  | insertAfter
deriving DecidableEq, Repr

namespace Edit

def all : List Edit := [replaceLine, insertAfter]

def name : Edit → String
  | replaceLine => "replace_line"
  | insertAfter => "insert_after"

def ofName? (s : String) : Option Edit := all.find? (·.name = s)

def parse (s : String) : Except NameError Edit :=
  match ofName? s with
  | some x => .ok x
  | none => .error (.edit s)

theorem ofName?_name (e : Edit) : ofName? e.name = some e := by cases e <;> decide

end Edit

structure Fix where
  category : Category
  line : Nat
  currentText : String
  replacementText : String
  edit : Edit
  /-- A short explanation. -/
  note : String
deriving DecidableEq, Repr

/-- A text with the categories of defects in it, in order and without repeats. -/
structure Example where
  sourceText : String
  labels : List Category
deriving DecidableEq, Repr

namespace Example

def labelled (sourceText : String) (labels : List Category) : Example :=
  ⟨sourceText, Category.inOrder labels⟩

def clean (sourceText : String) : Example := ⟨sourceText, []⟩

/-- The same source with one more label, if it does not have it. -/
def label (e : Example) (c : Category) : Example := .labelled e.sourceText (c :: e.labels)

end Example

end DefectScan
