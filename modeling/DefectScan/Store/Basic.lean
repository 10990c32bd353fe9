import DefectScan.Files.Basic
import DefectScan.OrderedMap
import DefectScan.Report
import DefectScan.Store.Table

/-!
# The store

Recorded sources, what was found in them and which fixes were proposed. The store is three tables
that only grow. A row that refers to a row that is not there is refused. What is read is joined from
two tables, row by row. Rows hold plain texts and numbers, so they are checked when they are read.
-/

namespace DefectScan

/-- What is wrong with a row. -/
inductive RowFlaw
  | name (e : NameError)
  | negative (n : Int)
deriving DecidableEq, Repr

def RowFlaw.message : RowFlaw → String
  | name e => e.message
  | negative n => "negative value " ++ toString n

inductive StoreError
  /-- A row refers to a row that is not there. -/
  | dangling
  | corrupt (table : String) (flaw : RowFlaw)
  | cannotOpen (path : String)
  | notStore
  | file (e : FileError)
deriving DecidableEq, Repr

namespace StoreError

/-- What an error of the database says. -/
def databaseText? : StoreError → Option String
  | dangling => some "FOREIGN KEY constraint failed"
  | cannotOpen path => some ("unable to open database file: " ++ path)
  | notStore => some "file is not a database"
  | _ => none

def message (e : StoreError) : String :=
  match e.databaseText? with
  | some s => "SQLite error: " ++ s
  | none =>
    match e with
    | corrupt table flaw => "Corrupt row in '" ++ table ++ "': " ++ flaw.message
    | file e => "IO error: " ++ e.message
    | _ => ""

end StoreError

structure Sample where
  name : String
  text : String
  hasDefects : Bool
deriving DecidableEq, Repr

structure FindingRow where
  sample : Int
  category : String
  description : String
  line : Int
  severity : String
  confidence : Option Float
  detector : String

structure FixRow where
  finding : Int
  line : Int
  currentText : String
  replacementText : String
  edit : String
  note : String
deriving DecidableEq, Repr

structure Store where
  samples : Store.Table Sample := .empty
  findings : Store.Table FindingRow := .empty
  fixes : Store.Table FixRow := .empty

namespace Store

/-! ## Recording -/

/-- The largest line that can be recorded; lines behind it count as it. -/
def maxLine : Nat := Nat.pow 2 63 - 1

def rowLine (n : Nat) : Int := (min n maxLine : Nat)

/-- A number as it is recorded: what is no number is absent, and zero has no sign. -/
def rowConfidence (x : Float) : Option Float := if x.isNaN then none else some (x + 0)

def rowOfFinding (sample : Int) (f : Finding) : FindingRow where
  sample := sample
  category := f.category.name
  description := f.description
  line := rowLine f.line
  severity := f.severity.name
  confidence := f.confidence.bind rowConfidence
  detector := f.detector.name

def rowOfFix (finding : Int) (f : Fix) : FixRow where
  finding := finding
  line := rowLine f.line
  currentText := f.currentText
  replacementText := f.replacementText
  edit := f.edit.name
  note := f.note

def addSample (s : Store) (x : Sample) : Store × Int :=
  let (samples, id) := s.samples.insert x
  ({ s with samples }, id)

def addFindingRow (s : Store) (row : FindingRow) : Except StoreError (Store × Int) :=
  if s.samples.has row.sample then
    let (findings, id) := s.findings.insert row
    .ok ({ s with findings }, id)
  else .error .dangling

def addFixRow (s : Store) (row : FixRow) : Except StoreError (Store × Int) :=
  if s.findings.has row.finding then
    let (fixes, id) := s.fixes.insert row
    .ok ({ s with fixes }, id)
  else .error .dangling

def addFinding (s : Store) (sample : Int) (f : Finding) : Except StoreError (Store × Int) :=
  s.addFindingRow (rowOfFinding sample f)

def addFix (s : Store) (finding : Int) (f : Fix) : Except StoreError (Store × Int) :=
  s.addFixRow (rowOfFix finding f)

/-- Records a finding with its fix. -/
def addItem (sample : Int) (s : Store) (i : Report.Item) : Except StoreError Store := do
  let (s, id) ← s.addFinding sample i.finding
  match i.fix with
  | none => return s
  | some f => return (← s.addFix id f).1

/-- Records a source with its report, which gets the number of the source. -/
def record (s : Store) (text : String) (r : Report) : Except StoreError (Store × Report) := do
  let (s, id) := s.addSample ⟨r.name, text, r.hasDefects⟩
  return (← r.items.foldlM (addItem id) s, { r with sample := some id })

/-- A source under a name, with the engine that is to analyse it. -/
structure Source where
  engine : Engine
  name : String
  text : String

/-- Analyses a source and records the report; nothing if the analysis breaks down. -/
def recordSource (s : Store) (x : Source) : Option (Except StoreError (Store × Report)) :=
  (x.engine.report? x.name x.text).map (s.record x.text)

/-- Analyses and records one source after another. -/
def recordAll (s : Store) : List Source → Option (Except StoreError (Store × List Report))
  | [] => some (.ok (s, []))
  | x :: rest =>
    match s.recordSource x with
    | none => none
    | some (.error e) => some (.error e)
    | some (.ok (s, r)) => (recordAll s rest).map fun done => done.map fun (s, rs) => (s, r :: rs)

/-! ## Reading -/

def findingTable : String := "bugs"

def fixTable : String := "fixes"

def parsed {α : Type} (table : String) (x : Except NameError α) : Except StoreError α :=
  x.mapError fun e => .corrupt table (.name e)

def readLine (table : String) (n : Int) : Except StoreError Nat :=
  if n < 0 then .error (.corrupt table (.negative n)) else .ok n.toNat

/-- A finding with its fix from their rows; the fix has the category of the finding. -/
def readRows (row : FindingRow) (fixRow : Option FixRow) : Except StoreError Report.Item := do
  let category ← parsed findingTable (Category.parse row.category)
  let line ← readLine findingTable row.line
  let severity ← parsed findingTable (Severity.parse row.severity)
  let detector ← parsed findingTable (DetectorKind.parse row.detector)
  let finding : Finding :=
    { category, line, description := row.description, severity, confidence := row.confidence
      detector }
  match fixRow with
  | none => return ⟨finding, none⟩
  | some f =>
    let line ← readLine fixTable f.line
    let edit ← parsed fixTable (Edit.parse f.edit)
    return ⟨finding, some { category, line, currentText := f.currentText
                            replacementText := f.replacementText, edit, note := f.note }⟩

/-- Whether a query chooses a finding: it asks for all, or for those with the name of a category. -/
def chooses (category : Option Category) (row : FindingRow) : Bool :=
  match category with
  | none => true
  | some c => row.category = c.name

/-- The rows that a query selects: findings with their fixes, in the order of their numbers. -/
def selected (s : Store) (category : Option Category) :
    List ((Int × FindingRow) × Option (Int × FixRow)) :=
  (Table.leftJoin s.findings.rows s.fixes.rows fun row f => f.2.finding = row.1).filter
    fun joined => chooses category joined.1.2

/-- What was recorded, of all categories or of one. -/
def query (s : Store) (category : Option Category) : Except StoreError (List Report.Item) :=
  (s.selected category).mapM fun joined => readRows joined.1.2 (joined.2.map (·.2))

/-- The detectors whose findings are no labels: what the classifier said is not taught to it. -/
def unlabelling : List DetectorKind := [.classifier, .engine]

/-- Whether a finding is a label of a sample. -/
def isLabel (id : Int) (row : FindingRow) : Bool :=
  row.sample = id && !(unlabelling.map (·.name)).contains row.detector

/-- The samples, each with the findings that are its labels. -/
def labelRows (s : Store) : List ((Int × Sample) × Option (Int × FindingRow)) :=
  Table.leftJoin s.samples.rows s.findings.rows fun sample row => isLabel sample.1 row.2

def readLabel (row : FindingRow) : Except StoreError Category :=
  parsed findingTable (Category.parse row.category)

/-- Takes a row into the examples by the number of its sample. -/
def addLabelRow (examples : OrderedMap Int Example)
    (joined : (Int × Sample) × Option (Int × FindingRow)) :
    Except StoreError (OrderedMap Int Example) := do
  let clean := Example.clean joined.1.2.text
  match joined.2 with
  | none => return examples.update joined.1.1 clean id
  | some row =>
    let category ← readLabel row.2
    return examples.update joined.1.1 clean (·.label category)

/-- The recorded sources as examples to learn from. -/
def examples (s : Store) : Except StoreError (List Example) := do
  let examples ← s.labelRows.foldlM addLabelRow .empty
  return examples.entries.map (·.2)

end Store

end DefectScan
