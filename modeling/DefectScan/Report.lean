import DefectScan.Codec.Finding
import DefectScan.Engine
import DefectScan.Fingerprint
import DefectScan.Proposal

/-!
# Reports

What was found in one source, each finding with the fix that is proposed for it.
-/

namespace DefectScan

structure Report.Item where
  finding : Finding
  fix : Option Fix

structure Report where
  name : String
  /-- The number under which the source was recorded. -/
  sample : Option Int := none
  items : List Report.Item

namespace Report

def hasDefects (r : Report) : Bool := !r.items.isEmpty

def fixes (r : Report) : List Fix := r.items.filterMap (·.fix)

/-- Pairs each finding with its fix. -/
def ofFindings (name text : String) (found : List Finding) : Report where
  name := name
  items := found.map fun f => ⟨f, Proposal.fixFor f text⟩

/-! ## JSON -/

def Item.encode (i : Item) : Json :=
  .obj (("finding", i.finding.encode) :: i.fix.toList.map fun f => ("fix", f.encode))

def encode (r : Report) : Json :=
  .obj ([("name", .str r.name)] ++ r.sample.toList.map (fun id => ("sample_id", .int id))
    ++ [("entries", .arr (r.items.map Item.encode))])

/-! ## Text -/

def place (f : Finding) : String := if f.isFileLevel then "file" else "line " ++ toString f.line

/-- A text brought to a width by blanks before it. -/
def alignRight (width : Nat) (s : String) : String :=
  String.ofList (List.replicate (width - s.length) ' ') ++ s

/-- A text brought to a width by blanks behind it. -/
def alignLeft (width : Nat) (s : String) : String :=
  s ++ String.ofList (List.replicate (width - s.length) ' ')

def verb : Edit → String
  | .replaceLine => "replace with"
  | .insertAfter => "insert after"

def fixText (f : Fix) : String :=
  "      fix (" ++ verb f.edit ++ "): " ++ f.note ++ "\n"
    ++ String.join ((Text.Lines.seen f.replacementText.toList).map fun l =>
      "        + " ++ String.ofList l ++ "\n")

def Item.text (i : Item) : String :=
  "  " ++ alignRight 8 (place i.finding) ++ "  " ++ i.finding.display ++ "\n"
    ++ (i.fix.map fixText).getD ""

def text (r : Report) : String :=
  if r.hasDefects then
    r.name ++ ": " ++ toString r.items.length ++ " issue(s), " ++ toString r.fixes.length
      ++ " fix(es) proposed\n" ++ String.join (r.items.map Item.text)
  else r.name ++ ": no issues found\n"

end Report

/-- The report of an engine on a source. -/
def Engine.report? (e : Engine) (name text : String) : Option Report :=
  (e.analyze? text).map (Report.ofFindings name text)

end DefectScan
