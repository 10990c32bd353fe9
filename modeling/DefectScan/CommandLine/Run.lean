import DefectScan.CommandLine.Arguments
import DefectScan.CommandLine.Failure
import DefectScan.Config.DotEnv
import DefectScan.Config.Message
import DefectScan.Files.Sources
import DefectScan.Learning.Corpus
import DefectScan.Patch.Unified
import DefectScan.Store.File
import DefectScan.Toml.Written

/-!
# Commands

What each command does with the files, what it prints, and how it fails. Everything runs over any file
system.
-/

namespace DefectScan.CommandLine

open Learning (Classifier ModelStore TrainingSummary)

/-- What surrounds a run. -/
structure Surroundings where
  directory : String
  home : String
  assignments : List (String × String)
  now : Timestamp

/-- A command prints and may fail; what it has printed stays. -/
abbrev CommandM (m : Type → Type) := ExceptT Failure (StateT String m)

variable {m : Type → Type} [Monad m] [FileSystem m]

def print (s : String) : CommandM m Unit := modify (· ++ s)

def printLine (s : String) : CommandM m Unit := print (s ++ "\n")

/-- Runs an operation that may fail. -/
def attempt {ε α : Type} (failure : ε → Failure) (x : m (Except ε α)) : CommandM m α := do
  match ← (x : m (Except ε α)) with
  | .ok a => return a
  | .error e => throw (failure e)

/-- What a command works with. -/
structure App where
  workspace : String
  settings : Settings
  now : Timestamp

namespace App

def modelKey (a : App) : String := a.settings.classifier.modelPath

def modelPath (a : App) : String := Path.join a.workspace a.modelKey

def storePath (a : App) : String := Path.join a.workspace a.settings.storage.databasePath

def untrained (a : App) : Classifier := ⟨a.settings.classifier, none⟩

def engine (a : App) (c : Classifier) : Engine := .standard a.settings.detection c

/-- The store, if there is to be one. -/
def openStore (a : App) : CommandM m (Option Store) := do
  if a.settings.storage.enabled then
    let failure (e : StoreError) : Failure :=
      (Failure.ofStore e).during ("Failed to open finding store at " ++ a.storePath)
    return some (← attempt failure (Store.load a.storePath))
  else return none

/-- The store, which has to be there. -/
def needStore (a : App) : CommandM m Store := do
  match ← a.openStore with
  | some s => return s
  | none => throw ⟨"Storage is disabled in configuration", []⟩

/-- Trains a model and keeps it. -/
def train (a : App) (examples : List Example) : CommandM m (Classifier × TrainingSummary) := do
  match a.untrained.train examples a.now with
  | .error e => throw (Failure.ofLearning e)
  | .ok (c, summary) =>
    let failure (e : Learning.Error) : Failure :=
      (Failure.ofLearning e).during ("Failed to save model to " ++ a.modelPath)
    attempt failure (c.save (ModelStore.files a.workspace) a.modelKey)
    return (c, summary)

/-- The classifier with the model that is kept, or with one from the recorded sources. A model that
cannot be used is left alone. -/
def prepare (a : App) (store : Option Store) : CommandM m Classifier := do
  if !a.settings.detection.classifier then return a.untrained
  match ← (a.untrained.load (ModelStore.files a.workspace) a.modelKey : m _) with
  | .ok c => return c
  | .error (.modelNotFound _) =>
    match store with
    | none => return a.untrained
    | some s =>
      let examples ← attempt Failure.ofStore (pure s.examples : m _)
      if examples.isEmpty then return a.untrained else return (← a.train examples).1
  | .error _ => return a.untrained

/-- The name of a source: its path in the workspace. -/
def nameOf (a : App) (path : String) : String := (Path.stripPrefix? path a.workspace).getD path

end App

/-! ## Sources -/

/-- Removes paths that are equal to the one before. -/
def distinct : List String → List String
  | p :: q :: rest =>
    if Path.components p = Path.components q then distinct (p :: rest) else p :: distinct (q :: rest)
  | ps => ps
termination_by ps => ps.length

/-- The sources at some paths, in order. -/
def sourcesAt (a : App) (paths : List String) : CommandM m (List String) := do
  let found ← paths.mapM fun p =>
    let path := Path.join a.workspace p
    attempt (fun e => (Failure.ofFileError e).during ("Failed to scan " ++ path))
      (Sources.discover path)
  return distinct (found.flatten.mergeSort Path.le)

/-- The report on a file, with its text. -/
def analyzeFile (a : App) (e : Engine) (path : String) : m (Except Failure (Report × String)) := do
  match ← Sources.read path with
  | .error x => return .error ((Failure.ofFileError x).during ("Failed to read " ++ path))
  | .ok text =>
    match e.report? (a.nameOf path) text with
    | some r => return .ok (r, text)
    | none => return .error ⟨"a detector broke down", []⟩

/-! ## The commands -/

/-- Reports on one file, and records it where there is a store. -/
def analyzeInto (a : App) (e : Engine) (json : Bool) (store : Option Store) (path : String) :
    CommandM m (Option Store × Option Report) := do
  match ← (analyzeFile a e path : m _) with
  | .error _ => return (store, none)
  | .ok (report, text) =>
    let failure (e : StoreError) : Failure :=
      (Failure.ofStore e).during ("Failed to record " ++ report.name)
    let (store, report) ← match store with
      | none => pure (none, report)
      | some s =>
        let (s, report) ← attempt failure (pure (s.record text report) : m _)
        attempt failure (s.save a.storePath)
        pure (some s, report)
    if !json then print report.text
    return (store, some report)

def analyzeAll (a : App) (e : Engine) (json : Bool) :
    Option Store → List String → CommandM m (List (Option Report))
  | _, [] => return []
  | store, path :: paths => do
    let (store, report) ← analyzeInto a e json store path
    return report :: (← analyzeAll a e json store paths)

def analyze (a : App) (paths : List String) (json noStore : Bool) : CommandM m Unit := do
  let store ← if noStore then pure none else a.openStore
  let c ← a.prepare store
  let outcomes ← analyzeAll a (a.engine c) json store (← sourcesAt a paths)
  let reports := outcomes.filterMap id
  if json then printLine (Json.arr (reports.map Report.encode)).pretty
  else
    let issues := reports.foldl (fun n r => n + r.items.length) 0
    printLine ("\nScanned " ++ toString reports.length ++ " file(s): " ++ toString issues
      ++ " issue(s) found")
  let failed := outcomes.countP Option.isNone
  if 0 < failed then throw ⟨toString failed ++ " file(s) could not be analyzed", []⟩

/-- The first fix of each line. -/
def firstPerLine (fixes : List Fix) : List Fix := go [] fixes
where
  go (seen : List Nat) : List Fix → List Fix
  | [] => []
  | f :: rest => if seen.contains f.line then go seen rest else f :: go (f.line :: seen) rest

def fixes (a : App) (file : String) (patchOnly : Bool) : CommandM m Unit := do
  let store ← a.openStore
  let c ← a.prepare store
  let path := Path.join a.workspace file
  let (report, text) ← attempt id (analyzeFile a (a.engine c) path)
  if !patchOnly then print report.text
  let chosen := firstPerLine report.fixes
  if chosen.isEmpty then
    if !patchOnly then printLine "No fixes to propose."
  else
    match Patch.patch report.name text.toList chosen with
    | .error e => throw ⟨e.message, []⟩
    | .ok patch =>
      if !patchOnly then printLine ""
      print (String.ofList patch)

/-- The examples that a training asks for. -/
def corpus (a : App) (examples : Option String) (fromStore seed : Bool) :
    CommandM m (List Example) := do
  let loaded ← match examples with
    | none => pure []
    | some p =>
      let path := Path.join a.workspace p
      let failure (e : Learning.Error) : Failure :=
        (Failure.ofLearning e).during ("Failed to load examples from " ++ path)
      let loaded ← attempt failure (Learning.Corpus.read path)
      printLine ("Loaded " ++ toString loaded.length ++ " example(s) from " ++ path)
      pure loaded
  let recorded ← if fromStore then
      let s ← a.needStore
      let recorded ← attempt Failure.ofStore (pure s.examples : m _)
      printLine ("Loaded " ++ toString recorded.length ++ " recorded sample(s)")
      pure recorded
    else pure []
  let builtIn := if seed || (examples.isNone && !fromStore) then Learning.Corpus.seed else []
  return loaded ++ recorded ++ builtIn

def train (a : App) (examples : Option String) (fromStore seed : Bool) : CommandM m Unit := do
  let (c, summary) ← a.train (← corpus a examples fromStore seed)
  printLine ("Trained on " ++ toString summary.examples ++ " example(s), vocabulary of "
    ++ toString summary.vocabularySize ++ " term(s)")
  summary.labelCounts.forM fun (category, n) =>
    printLine ("  " ++ Report.alignLeft 18 category.name ++ " " ++ toString n)
  printLine ("Model saved to " ++ a.modelPath)
  c.model.forM fun model => printLine ("Model checksum: " ++ model.checksum)

def itemJson (i : Report.Item) : Json :=
  .obj [("finding", i.finding.encode), ("fix", (i.fix.map Fix.encode).getD .null)]

def findings (a : App) (category : Option String) (json : Bool) : CommandM m Unit := do
  let category ← match category with
    | none => pure none
    | some s =>
      match Category.parse s with
      | .ok c => pure (some c)
      | .error e => throw ⟨e.message, []⟩
  let s ← a.needStore
  let items ← attempt Failure.ofStore (pure (s.query category) : m _)
  if json then printLine (Json.arr (items.map fun i => (itemJson i).sorted)).pretty
  else if items.isEmpty then printLine "No recorded findings."
  else
    print (String.join (items.map Report.Item.text))
    printLine (toString items.length ++ " finding(s)")

/-- The text of settings. -/
def settingsText (s : Settings) : CommandM m String := do
  match Toml.settingsText? s with
  | some text => return String.ofList text
  | none => throw ⟨"out-of-range value for u64 type", []⟩

def configInit (workspace : String) : CommandM m Unit := do
  let plain (e : FileError) : Failure := ⟨e.message, []⟩
  attempt plain (Files.makeDirectories (Path.join workspace ".cscout"))
  let path := Config.workspaceFile workspace
  if ← (Files.isPresent path : m _) then
    printLine ("Configuration file already exists at: " ++ path)
  else
    let text ← settingsText {}
    attempt plain (FileSystem.write path text.toUTF8)
    printLine ("Created default configuration at: " ++ path)

/-- The settings of a workspace. -/
def loadSettings (s : Surroundings) (workspace what : String) : CommandM m Settings :=
  attempt (fun e => ⟨what ++ ": " ++ e.message s.directory, []⟩)
    (Config.load s.home (some workspace) s.assignments)

def runCommand (s : Surroundings) (workspace : String) (command : Command) : CommandM m Unit := do
  match command with
  | .configInit => configInit workspace
  | .configShow =>
    printLine (← settingsText (← loadSettings s workspace "Failed to load config"))
  | command =>
    let settings ← loadSettings s workspace "Configuration error"
    let a : App := ⟨workspace, settings, s.now⟩
    match command with
    | .analyze paths json noStore => analyze a paths json noStore
    | .fixes file patchOnly => fixes a file patchOnly
    | .train examples fromStore seed => train a examples fromStore seed
    | .findings category json => findings a category json
    | _ => return

/-! ## Runs -/

/-- What a run leaves to see. -/
structure Outcome where
  exitCode : UInt32
  output : String := ""
  error : Option String := none

def versionText : String := "cscout 1.0.1\n"

/-- The variables, with those of a file in the current directory. -/
def allAssignments (s : Surroundings) : m (List (String × String)) := do
  match ← Files.readText (Path.join s.directory ".env") with
  | .ok text => return DotEnv.extend s.assignments text
  | .error _ => return s.assignments

/-- Runs the command that a list of arguments asks for. -/
def run (s : Surroundings) (args : List String) : m Outcome := do
  let s := { s with assignments := ← allAssignments s }
  match invocation args with
  | .error .help => return { exitCode := 0 }
  | .error .version => return { exitCode := 0, output := versionText }
  | .error .usage => return { exitCode := 2 }
  | .ok i =>
    let workspace := (← FileSystem.canonical? (Path.join s.directory i.workspace)).getD s.directory
    let (result, output) ← (runCommand s workspace i.command).run ""
    match result with
    | .ok _ => return { exitCode := 0, output }
    | .error f => return { exitCode := 1, output, error := some f.text }

end DefectScan.CommandLine
