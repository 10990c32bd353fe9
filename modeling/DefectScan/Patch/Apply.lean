import DefectScan.Finding
import DefectScan.Text.Lines

/-!
# Applying fixes

A fix is applied to the lines of a text. Several fixes are applied from the bottom up, so that the
numbers of the lines above stay right; no two may concern one line.
-/

namespace DefectScan.Patch

open Text

inductive FixError
  /-- There is no such line among `count` lines. -/
  | invalidLine (line count : Nat)
  /-- Two fixes concern one line. -/
  | conflict (line : Nat)
deriving DecidableEq, Repr

def FixError.message : FixError → String
  | invalidLine line count =>
    "line " ++ toString line ++ " out of range (source has " ++ toString count ++ " lines)"
  | conflict line => "conflicting fixes for line " ++ toString line

/-- What a line becomes under a fix. -/
def editLine (fix : Fix) (line : List Char) : List (List Char) :=
  match fix.edit with
  | .replaceLine => [fix.replacementText.toList]
  | .insertAfter => [line, fix.replacementText.toList]

/-- A text with one fix applied. -/
def applyFix (text : List Char) (fix : Fix) : Except FixError (List Char) :=
  let lines := Lines.split text
  if fix.line = 0 || lines.length < fix.line then .error (.invalidLine fix.line lines.length)
  else
    let i := fix.line - 1
    .ok (Lines.join
      (lines.take i ++ editLine fix (lines.getD i []) ++ lines.drop (i + 1)))

/-- The fixes, those of the last lines first. -/
def bottomUp (fixes : List Fix) : List Fix := fixes.mergeSort fun a b => b.line ≤ a.line

/-- The line of the first two neighbours that concern one line. -/
def conflict? : List Fix → Option Nat
  | a :: b :: rest => if a.line = b.line then some a.line else conflict? (b :: rest)
  | _ => none

def applyAll (text : List Char) : List Fix → Except FixError (List Char)
  | [] => .ok text
  | fix :: rest =>
    match applyFix text fix with
    | .ok text => applyAll text rest
    | .error e => .error e

/-- A text with several fixes applied. -/
def applyFixes (text : List Char) (fixes : List Fix) : Except FixError (List Char) :=
  let sorted := bottomUp fixes
  match conflict? sorted with
  | some line => .error (.conflict line)
  | none => applyAll text sorted

end DefectScan.Patch
