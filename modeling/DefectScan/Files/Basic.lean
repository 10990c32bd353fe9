import DefectScan.Files.Path

/-!
# Files

What a program can do with files. A monad with these operations is a file system; everything else
about files is written over them, so that it runs on the files of a machine as well as on a tree in
memory.
-/

namespace DefectScan

/-- What can go wrong with a file. -/
inductive FileError
  | notFound
  | busy
  | exists
  | notDirectory
  | isDirectory
  | nameTooLong
  | tooManyLinks
  /-- A path holds the character that ends a path. -/
  | endInside
  /-- A file that should be text is not UTF-8. -/
  | notText
  /-- A path that was asked for leads nowhere. -/
  | missing (path : String)
deriving DecidableEq, Repr

def FileError.message : FileError → String
  | notFound => "No such file or directory (os error 2)"
  | busy => "Device or resource busy (os error 16)"
  | FileError.exists => "File exists (os error 17)"
  | notDirectory => "Not a directory (os error 20)"
  | isDirectory => "Is a directory (os error 21)"
  | nameTooLong => "File name too long (os error 36)"
  | tooManyLinks => "Too many levels of symbolic links (os error 40)"
  | endInside => "file name contained an unexpected NUL byte"
  | notText => "stream did not contain valid UTF-8"
  | missing path => path ++ " does not exist"

inductive FileKind
  | file
  | directory
  | link
deriving DecidableEq, Repr

class FileSystem (m : Type → Type) where
  read : String → m (Except FileError ByteArray)
  write : String → ByteArray → m (Except FileError Unit)
  makeDirectory : String → m (Except FileError Unit)
  rename : String → String → m (Except FileError Unit)
  /-- What stands at a path, links followed. -/
  kind? : String → m (Option FileKind)
  /-- The names in a directory with their kinds, links not followed. -/
  list : String → m (List (String × FileKind))
  /-- The path without links, if it exists. -/
  canonical? : String → m (Option String)

namespace Files

variable {m : Type → Type} [Monad m] [FileSystem m]

def isDirectory (path : String) : m Bool := return (← FileSystem.kind? path) = some .directory

def isFile (path : String) : m Bool := return (← FileSystem.kind? path) = some .file

def isPresent (path : String) : m Bool := return (← FileSystem.kind? path).isSome

/-- A path and those above it. -/
def ancestors (path : String) : List String := go (Path.components path).length path
where
  go : Nat → String → List String
  | 0, p => [p]
  | n + 1, p =>
    match Path.parent? p with
    | some up => p :: go n up
    | none => [p]

/-- Makes a directory where none is. -/
def ensure (path : String) : m (Except FileError Unit) := do
  match ← FileSystem.makeDirectory path with
  | .ok _ => return .ok ()
  | .error e => if ← isDirectory path then return .ok () else return .error e

/-- Makes the first of some paths a directory, and before it those above that are missing. -/
def makeAll : List String → m (Except FileError Unit)
  | [] => return .error .notFound
  | path :: above => do
    if path = "" then return .ok ()
    match ← FileSystem.makeDirectory path with
    | .ok _ => return .ok ()
    | .error .notFound =>
      match ← makeAll above with
      | .error e => return .error e
      | .ok _ => ensure path
    | .error e => if ← isDirectory path then return .ok () else return .error e

/-- Makes a directory and all that are missing above it. -/
def makeDirectories (path : String) : m (Except FileError Unit) := makeAll (ancestors path)

/-- Makes the directory of a file. -/
def makeParent (path : String) : m (Except FileError Unit) := do
  match Path.parent? path with
  | some up => if up = "" then return .ok () else makeDirectories up
  | none => return .ok ()

/-- Writes a file by way of a sibling with the extension `tmp`, which then takes its place. -/
def replace (path : String) (content : ByteArray) : m (Except FileError Unit) := do
  match ← makeParent path with
  | .error e => return .error e
  | .ok _ =>
    let sibling := Path.withExtension path "tmp"
    match ← FileSystem.write sibling content with
    | .error e => return .error e
    | .ok _ => FileSystem.rename sibling path

/-- The content of a file, or nothing if there is none. -/
def readOptional (path : String) : m (Except FileError (Option ByteArray)) := do
  match ← FileSystem.read path with
  | .ok content => return .ok (some content)
  | .error .notFound => return .ok none
  | .error e => return .error e

/-- The content of a file as text. -/
def readText (path : String) : m (Except FileError String) := do
  match ← FileSystem.read path with
  | .error e => return .error e
  | .ok content =>
    match String.fromUTF8? content with
    | some s => return .ok s
    | none => return .error .notText

end Files

end DefectScan
