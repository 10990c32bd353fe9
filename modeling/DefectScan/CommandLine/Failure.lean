import DefectScan.Config.Load
import DefectScan.Learning.Error
import DefectScan.Patch.Apply
import DefectScan.Store.Basic

/-!
# Failures

A command that fails says why, and what caused it, from the nearest cause to the farthest.
-/

namespace DefectScan.CommandLine

structure Failure where
  message : String
  causes : List String := []
deriving DecidableEq, Repr

namespace Failure

/-- Says what was tried. -/
def during (what : String) (f : Failure) : Failure := ⟨what, f.message :: f.causes⟩

def causeLines : Nat → List String → String
  | _, [] => ""
  | i, c :: cs => "\n    " ++ toString i ++ ": " ++ c ++ causeLines (i + 1) cs

def text (f : Failure) : String :=
  "Error: " ++ f.message ++
    match f.causes with
    | [] => ""
    | [c] => "\n\nCaused by:\n    " ++ c
    | cs => "\n\nCaused by:" ++ causeLines 0 cs

/-- An error of a file under the words of what it happened to. -/
def ofFileError (e : FileError) : Failure := ⟨"IO error: " ++ e.message, [e.message]⟩

def ofLearning (e : Learning.Error) : Failure :=
  match e with
  | .file e => ofFileError e
  | .json f => ⟨e.message, [Learning.faultText f]⟩
  | .examples _ complaint => ⟨e.message, [complaint]⟩
  | _ => ⟨e.message, []⟩

/-- What the numbers of errors of the database stand for. -/
def databaseCause? : StoreError → Option String
  | .cannotOpen _ => some "Error code 14: Unable to open the database file"
  | .notStore => some "Error code 26: File opened that is not a database file"
  | .dangling => some "Error code 787: Foreign key constraint failed"
  | _ => none

def ofStore (e : StoreError) : Failure :=
  match e with
  | .file e => ofFileError e
  | _ => ⟨e.message, e.databaseText?.toList ++ (databaseCause? e).toList⟩

end Failure

end DefectScan.CommandLine
