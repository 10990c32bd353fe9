import DefectScan.Files.Basic
import DefectScan.Text.Utf8

/-!
# Sources on disk

A source is read whatever its bytes are. Below a directory, all files with the extension of a source
are found, at any depth, without following links; a path to a file is taken as it is.
-/

namespace DefectScan.Sources

variable {m : Type → Type} [Monad m] [FileSystem m]

def textOf (content : ByteArray) : String :=
  match String.fromUTF8? content with
  | some s => s
  | none => String.ofList (Text.Utf8.decode content.toList)

/-- The text of a source. -/
def read (path : String) : m (Except FileError String) := do
  match ← FileSystem.read path with
  | .ok content => return .ok (textOf content)
  | .error e => return .error e

/-- The deepest nesting of directories that is looked at. -/
def maxNesting : Nat := 4096

mutual
/-- The sources below a directory. -/
def below : Nat → String → m (List String)
  | 0, _ => return []
  | depth + 1, path => do belowEach depth path (← FileSystem.list path)

def belowEach (depth : Nat) (path : String) : List (String × FileKind) → m (List String)
  | [] => return []
  | (name, kind) :: rest => do
    let here := Path.join path name
    let found ← match kind with
      | .directory => below depth here
      | .file => pure (if Path.isSource here then [here] else [])
      | .link => pure []
    return found ++ (← belowEach depth path rest)
end

/-- The sources at a path, in order. -/
def discover (path : String) : m (Except FileError (List String)) := do
  match ← FileSystem.kind? path with
  | none => return .error (.missing path)
  | some .directory => return .ok ((← below maxNesting path).mergeSort Path.le)
  | some _ => return .ok [path]

end DefectScan.Sources
