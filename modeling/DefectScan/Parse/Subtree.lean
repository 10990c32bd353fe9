import DefectScan.Grammar.Table
import DefectScan.Parse.Cursor

/-!
# Trees under construction

A subtree is a token, a completed production, or a stretch of text that was passed over. It carries
the cost of the repairs in it: of two readings of one text the cheaper one is kept, and of equally
cheap ones the one with the greater weight.
-/

namespace DefectScan.Parse

open DefectScan.Grammar

/-- What a subtree is of. -/
inductive Label
  | symbol (s : Nat)
  /-- Text that does not fit. -/
  | error
  /-- A step of passing over text that does not fit. -/
  | skipped
deriving DecidableEq, Repr

namespace Label

def isError : Label → Bool
  | symbol _ => false
  | _ => true

/-- Labels in order: symbols by number, then skipped text, then errors. -/
def lt : Label → Label → Bool
  | symbol a, symbol b => a < b
  | symbol _, _ => true
  | skipped, error => true
  | _, _ => false

def visible (g : Table) : Label → Bool
  | symbol s => (g.symbol s).visible
  | error => true
  | skipped => false

end Label

/-! ## Costs of repairs -/

def missingCost : Nat := 610

def repairCost : Nat := 500

def skippedTreeCost : Nat := 100

def skippedLineCost : Nat := 30

/-- The cost of passing over the text between two places. -/
def spanCost (first last : Position) : Nat :=
  (last.byte - first.byte) + skippedLineCost * (last.row - first.row)

structure Subtree where
  label : Label
  children : List Subtree
  /-- The place behind the preceding token. -/
  before : Position
  start : Position
  stop : Position
  cost : Nat
  weight : Int
  /-- The number of visible nodes below. -/
  descendants : Nat
  /-- The number of children that are shown. -/
  shown : Nat
  visible : Bool
  /-- The subtree may stand anywhere. -/
  extra : Bool
  /-- A token that is not in the text but would repair it. -/
  missing : Bool
  production : Option Nat

instance : Inhabited Subtree :=
  ⟨⟨.error, [], .start, .start, .start, 0, 0, 0, 0, true, false, false, none⟩⟩

namespace Subtree

/-- A token; the end of the text stands beside the tree. -/
def leaf (g : Table) (label : Label) (before start stop : Position) : Subtree :=
  { label, children := [], before, start, stop, cost := 0, weight := 0, descendants := 0, shown := 0
    visible := label.visible g, extra := label = .symbol 0, missing := false, production := none }

/-- A token that is missing at a place. -/
def missingLeaf (g : Table) (s : Nat) (place : Position) : Subtree :=
  { leaf g (.symbol s) place place place with cost := missingCost, missing := true }

/-- What passing over a subtree adds to the cost of the text that is passed over. -/
def skipCost (t : Subtree) : Nat :=
  if t.extra || (t.label = .error && t.children.isEmpty) then 0
  else if t.visible then skippedTreeCost
  else if t.children.isEmpty then 0
  else skippedTreeCost * t.shown

/-- The kinds that a production gives to its children; children that may stand anywhere take no
part in it. -/
def givenKinds (g : Table) (production : Option Nat) (children : List Subtree) :
    List (Subtree × Option NumberedStep) :=
  match production with
  | none => children.map fun t => (t, none)
  | some p => go (g.production p).steps.toList children
where
  go : List NumberedStep → List Subtree → List (Subtree × Option NumberedStep)
  | _, [] => []
  | steps, t :: ts =>
    if t.extra then (t, none) :: go steps ts
    else
      match steps with
      | [] => (t, none) :: go [] ts
      | s :: steps => (t, some s) :: go steps ts

/-- A tree above others; `place` is where it stands if it has no children. -/
def branch (g : Table) (label : Label) (children : List Subtree) (production : Option Nat)
    (place : Position) : Subtree :=
  let before := (children.head?.map (·.before)).getD place
  let start := (children.head?.map (·.start)).getD place
  let stop := (children.getLast?.map (·.stop)).getD place
  let below := children.foldl (fun n t => if t.label = .skipped then n else n + t.cost) 0
  let own :=
    if label.isError then
      children.foldl (fun n t => n + t.skipCost) 0 + repairCost + spanCost start stop
    else 0
  let counts := (givenKinds g production children).foldl (fun (n : Nat × Nat) (t, step) =>
      if t.visible || (step.bind (·.kind)).isSome then (n.1 + t.descendants + 1, n.2 + 1)
      else if t.children.isEmpty then (n.1 + t.descendants, n.2)
      else (n.1 + t.descendants, n.2 + t.shown)) (0, 0)
  { label, children, before, start, stop, production
    cost := below + own
    weight := children.foldl (fun w t => w + t.weight) 0
    descendants := counts.1
    shown := counts.2
    visible := label.visible g
    extra := false
    missing := false }

/-- How many nodes the subtree adds to a reading. -/
def nodeCount (t : Subtree) : Nat :=
  t.descendants + (if t.visible then 1 else 0) + (if t.label = .skipped then 1 else 0)

/-- Compares trees by labels and numbers of children, from the top and from the left. -/
def compareShape : Nat → List (Subtree × Subtree) → Ordering
  | 0, _ => .eq
  | _, [] => .eq
  | fuel + 1, (a, b) :: rest =>
    if a.label.lt b.label then .lt
    else if b.label.lt a.label then .gt
    else if a.children.length < b.children.length then .lt
    else if b.children.length < a.children.length then .gt
    else compareShape fuel (a.children.zip b.children ++ rest)

mutual
/-- The number of nodes of a tree. -/
def size : Subtree → Nat
  | ⟨_, children, _, _, _, _, _, _, _, _, _, _, _⟩ => sizeAll children + 1

def sizeAll : List Subtree → Nat
  | [] => 0
  | t :: ts => size t + sizeAll ts
end

/-- Whether the second of two readings of one text is to be preferred. -/
def prefersSecond (a b : Subtree) : Bool :=
  if b.cost < a.cost then true
  else if a.cost < b.cost then false
  else if a.weight < b.weight then true
  else if b.weight < a.weight then false
  else if 0 < a.cost then true
  else compareShape a.size [(a, b)] = .gt

/-- Whether two subtrees can be taken for one another. -/
def interchangeable (a b : Subtree) : Bool :=
  a.label = b.label && ((0 < a.cost && 0 < b.cost) ||
    (a.before = b.before && a.start = b.start && a.stop = b.stop
      && a.children.length = b.children.length && a.extra = b.extra))

/-- Splits the subtrees that may stand anywhere off the end. -/
def splitExtras (ts : List Subtree) : List Subtree × List Subtree :=
  let extras := (ts.reverse.takeWhile (·.extra)).reverse
  (ts.take (ts.length - extras.length), extras)

end Subtree

end DefectScan.Parse
