import DefectScan.CommandLine.Run
import Std.Time.DateTime.Timestamp

/-!
# The program

The files of the machine, and the command that the arguments ask for.
-/

namespace DefectScan.Machine

def errorOf (e : IO.Error) : FileError :=
  match e with
  | .noFileOrDirectory .. | .noSuchThing .. => .notFound
  | .alreadyExists .. => .exists
  | .resourceBusy .. => .busy
  | .inappropriateType _ code _ =>
    if code = 20 then .notDirectory else if code = 40 then .tooManyLinks else .isDirectory
  | .illegalOperation .. => .isDirectory
  | .invalidArgument _ code _ => if code = 36 then .nameTooLong else .endInside
  | _ => .notFound

def caught {α : Type} (x : IO α) : IO (Except FileError α) := do
  match ← x.toBaseIO with
  | .ok a => return .ok a
  | .error e => return .error (errorOf e)

def kindOf (t : IO.FS.FileType) : FileKind :=
  match t with
  | .dir => .directory
  | .symlink => .link
  | _ => .file

def here (path : String) := do return (← IO.currentDir) / path

def list (path : String) : IO (List (String × FileKind)) := do
  let entries ← (← here path).readDir
  entries.toList.mapM fun e => do
    match ← e.path.symlinkMetadata.toBaseIO with
    | .ok data => return (e.fileName, kindOf data.type)
    | .error _ => return (e.fileName, .file)

instance : FileSystem IO where
  read path := caught (IO.FS.readBinFile path)
  write path content := caught (IO.FS.writeBinFile path content)
  makeDirectory path := caught (IO.FS.createDir path)
  rename source target := caught (IO.FS.rename source target)
  kind? path := do
    match ← (← here path).metadata.toBaseIO with
    | .ok data => return some (kindOf data.type)
    | .error _ => return none
  list path := do
    match ← (list path).toBaseIO with
    | .ok entries => return entries
    | .error _ => return []
  canonical? path := do
    if ← (← here path).pathExists then return some (← IO.FS.realPath path).toString else return none

/-- A variable as `NAME=value`. -/
def assigned? (bytes : List UInt8) : Option (String × String) := do
  let cs := (Sources.textOf ⟨bytes.toArray⟩).toList
  let name := cs.takeWhile (· ≠ '=')
  if name.length = cs.length then none
  return (String.ofList name, String.ofList (cs.drop (name.length + 1)))

/-- All variables of this process. -/
def assignments : IO (List (String × String)) := do
  match ← (IO.FS.readBinFile "/proc/self/environ").toBaseIO with
  | .ok content => return (content.toList.splitOn 0).filterMap assigned?
  | .error _ => return []

def now : IO Timestamp := do
  let t ← Std.Time.Timestamp.now
  let nanos := t.toNanosecondsSinceUnixEpoch.val
  return ⟨nanos / 1000000000, (nanos % 1000000000).toNat⟩

def surroundings : IO CommandLine.Surroundings := do
  return {
    directory := (← IO.currentDir).toString
    home := (← IO.getEnv "HOME").getD ""
    assignments := ← assignments
    now := ← now }

end DefectScan.Machine

open DefectScan in
def main (args : List String) : IO UInt32 := do
  let o : CommandLine.Outcome ← CommandLine.run (← Machine.surroundings) args
  IO.print o.output
  o.error.forM fun e => IO.eprintln e
  return o.exitCode
