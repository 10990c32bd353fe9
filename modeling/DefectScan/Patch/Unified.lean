import DefectScan.Patch.Apply
import DefectScan.Patch.Diff

/-!
# Unified diffs

The changed lines of a text with up to three equal lines around them. Deletions and insertions that
stand side by side are shown as one replacement, and changes that are close share a hunk.
-/

namespace DefectScan.Patch

/-- A stretch of a difference: equal lines, or old lines that become new ones. -/
structure Stretch where
  isEqual : Bool
  old : Nat
  oldLength : Nat
  new : Nat
  newLength : Nat
deriving DecidableEq, Repr

instance : Inhabited Stretch := ⟨⟨true, 0, 0, 0, 0⟩⟩

/-- What has been gathered of a difference: equal lines, deleted and inserted ones. -/
structure Gathered where
  equal : Option Op
  deleted : Option Op
  inserted : Option Op

namespace Gathered

def changes (g : Gathered) : List Stretch :=
  match g.deleted, g.inserted with
  | some d, some i => [⟨false, d.old, d.oldLength, i.new, i.newLength⟩]
  | some d, none => [⟨false, d.old, d.oldLength, d.new, 0⟩]
  | none, some i => [⟨false, i.old, 0, i.new, i.newLength⟩]
  | none, none => []

def equals (g : Gathered) : List Stretch :=
  match g.equal with
  | some e => [⟨true, e.old, e.oldLength, e.new, e.newLength⟩]
  | none => []

end Gathered

/-- Joins neighbours of one kind. -/
def joined (o : Option Op) (n : Op) : Op :=
  match o with
  | some o => { o with oldLength := o.oldLength + n.oldLength, newLength := o.newLength + n.newLength }
  | none => n

/-- Gathers the steps of a difference into stretches. -/
def stretches (g : Gathered) : List Op → List Stretch
  | [] => g.equals ++ g.changes
  | o :: rest =>
    match o.tag with
    | .equal => g.changes ++ stretches ⟨some (joined g.equal o), none, none⟩ rest
    | .delete => g.equals ++ stretches ⟨none, some (joined g.deleted o), g.inserted⟩ rest
    | .insert => g.equals ++ stretches ⟨none, g.deleted, some (joined g.inserted o)⟩ rest

/-! ## Hunks -/

/-- How many equal lines are shown around a change. -/
def context : Nat := 3

def keepEnd (n : Nat) (s : Stretch) : Stretch :=
  if s.isEqual then
    let cut := s.oldLength - n
    ⟨true, s.old + cut, s.oldLength - cut, s.new + cut, s.newLength - cut⟩
  else s

def keepStart (n : Nat) (s : Stretch) : Stretch :=
  if s.isEqual then { s with oldLength := min n s.oldLength, newLength := min n s.newLength } else s

/-- Cuts a list of stretches at long runs of equal lines. -/
def cutHunks : List Stretch → List Stretch → List (List Stretch)
  | [], pending =>
    match pending with
    | [] => []
    | [s] => if s.isEqual then [] else [pending]
    | _ => [pending]
  | s :: rest, pending =>
    if s.isEqual && 2 * context < s.oldLength then
      (pending ++ [keepStart context s]) :: cutHunks rest [keepEnd context s]
    else cutHunks rest (pending ++ [s])

/-- The hunks of a difference. -/
def hunks (ss : List Stretch) : List (List Stretch) :=
  let ss := ss.modify 0 (keepEnd context)
  cutHunks (ss.modify (ss.length - 1) (keepStart context)) []

/-! ## Text -/

/-- The lines of a text with their ends: a line feed, a carriage return, or both. -/
def terminated (text : List Char) : List (List Char) :=
  go text []
where
  /-- `line` is the line so far, last character first. -/
  go : List Char → List Char → List (List Char)
  | [], line => if line.isEmpty then [] else [line.reverse]
  | '\r' :: '\n' :: rest, line => ('\n' :: '\r' :: line).reverse :: go rest []
  | c :: rest, line =>
    if c = '\r' || c = '\n' then (c :: line).reverse :: go rest [] else go rest (c :: line)

/-- A range of lines: its first line and its length, if that is not one. -/
def rangeText (start length : Nat) : String :=
  if length = 1 then toString (start + 1)
  else if length = 0 then toString start ++ ",0"
  else toString (start + 1) ++ "," ++ toString length

def lineText (mark : Char) (line : List Char) : List Char :=
  let ended := line.getLast? = some '\n' || line.getLast? = some '\r'
  mark :: line ++ if ended then [] else "\n\\ No newline at end of file\n".toList

def linesText (mark : Char) (lines : Array (List Char)) (start length : Nat) : List Char :=
  ((List.range length).map fun i => lineText mark (lines.getD (start + i) [])).flatten

def stretchText (old new : Array (List Char)) (s : Stretch) : List Char :=
  if s.isEqual then linesText ' ' old s.old s.oldLength
  else linesText '-' old s.old s.oldLength ++ linesText '+' new s.new s.newLength

def headerText (first last : Stretch) : String :=
  "@@ -" ++ rangeText first.old (last.old + last.oldLength - first.old) ++ " +"
    ++ rangeText first.new (last.new + last.newLength - first.new) ++ " @@\n"

def hunkText (old new : Array (List Char)) (hunk : List Stretch) : List Char :=
  (headerText (hunk.headD default) (hunk.getLastD default)).toList
    ++ (hunk.map (stretchText old new)).flatten

/-- The unified diff of two texts, without the names of files. -/
def unified (old new : List Char) : List Char :=
  let old := (terminated old).toArray
  let new := (terminated new).toArray
  ((hunks (stretches ⟨none, none, none⟩ (diff old new))).map (hunkText old new)).flatten

/-- The patch that some fixes make. -/
def patch (path : String) (source : List Char) (fixes : List Fix) :
    Except FixError (List Char) :=
  match applyFixes source fixes with
  | .error e => .error e
  | .ok patched =>
    .ok (("--- a/" ++ path ++ "\n+++ b/" ++ path ++ "\n").toList ++ unified source patched)

end DefectScan.Patch
