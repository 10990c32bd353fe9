import DefectScan.Config.Environment
import DefectScan.Config.Extract
import DefectScan.Decimal.Format
import DefectScan.Files.Basic
import DefectScan.Toml.Document

/-!
# Loading settings

Settings come from the file of the user, the file of the workspace and the environment, each over the
ones before, and all over the defaults.
-/

namespace DefectScan.Config

/-- Where a layer comes from. -/
inductive Source
  | file (path : String)
  | environment
deriving DecidableEq, Repr

inductive LoadError
  /-- A file is no TOML document. -/
  | notToml (path : String)
  /-- A setting is wrong, and this is where it comes from. -/
  | setting (e : ConfigError) (source : Source)

/-- The uppermost layer that says something at a path. -/
def sourceOf (layers : List (Source × ConfigValue)) (path : List String) : Source :=
  match layers.reverse.find? fun (_, v) => (v.get? path).isSome with
  | some (source, _) => source
  | none => .environment

/-- The settings that layers give. -/
def ofLayers (layers : List (Source × ConfigValue)) : Except LoadError Settings :=
  (Settings.ofConfig (.stack (layers.map (·.2)))).mapError fun e =>
    .setting e (sourceOf layers e.path)

def userFile (home : String) : String := Path.join home ".config/cscout/config.toml"

def workspaceFile (workspace : String) : String := Path.join workspace ".cscout/config.toml"

variable {m : Type → Type} [Monad m] [FileSystem m]

/-- What a file says; nothing if there is none. -/
def fileLayer (path : String) : m (Except LoadError (Option (Source × ConfigValue))) := do
  if ← Files.isFile path then
    match ← Files.readText path with
    | .error _ => return .error (.notToml path)
    | .ok text =>
      match Toml.read text.toList with
      | some v => return .ok (some (.file path, v))
      | none => return .error (.notToml path)
  else return .ok none

/-- The settings for a workspace, or outside of any. -/
def load (home : String) (workspace : Option String) (assignments : List (String × String)) :
    m (Except LoadError Settings) := do
  let files := userFile home :: workspace.toList.map workspaceFile
  let found ← files.mapM fileLayer
  match found.mapM id with
  | .error e => return .error e
  | .ok layers =>
    return ofLayers (layers.filterMap id ++ [(.environment, Environment.layer assignments)])

end DefectScan.Config
