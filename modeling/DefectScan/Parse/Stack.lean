import DefectScan.Grammar.Automaton
import DefectScan.Parse.Subtree

/-!
# Stacks that share their history

Several readings of one text are followed side by side. Each has a head, and the heads stand on
nodes that are linked to what was read before: where two readings come to the same state at the same
place, they are joined and only their histories differ.

Nodes are numbered in order of creation. A link without a tree marks the place where a reading was
lost.
-/

namespace DefectScan.Parse

open DefectScan.Grammar

structure Link where
  node : Nat
  tree : Option Subtree
deriving Inhabited

structure StackNode where
  state : Nat
  place : Position
  links : List Link
  cost : Nat
  /-- The number of tree nodes on the way here. -/
  count : Nat
  weight : Int

instance : Inhabited StackNode := ⟨⟨0, .start, [], 0, 0, 0⟩⟩

/-- A state that was passed on the way to an error: how far back it lies, and where. -/
structure Landmark where
  state : Nat
  depth : Nat
  place : Position

inductive Status
  | active
  /-- Waiting at a token that does not fit. -/
  | paused (look : Subtree)
  | halted

namespace Status

def isActive : Status → Bool
  | active => true
  | _ => false

def isPaused : Status → Bool
  | paused _ => true
  | _ => false

def isHalted : Status → Bool
  | halted => true
  | _ => false

end Status

structure Head where
  node : Nat
  /-- The number of tree nodes at the last error. -/
  countAtError : Nat
  status : Status
  landmarks : List Landmark

instance : Inhabited Head := ⟨⟨0, 0, .active, []⟩⟩

structure Stack where
  nodes : Array StackNode
  heads : List Head

namespace Stack

/-- The most links that a node has. -/
def maxLinks : Nat := 8

/-- The most ways back that are followed at once. -/
def maxTrails : Nat := 64

def initial : Stack :=
  { nodes := #[{ (default : StackNode) with state := Automaton.start }]
    heads := [default] }

def node (s : Stack) (n : Nat) : StackNode := s.nodes.getD n default

def head (s : Stack) (v : Nat) : Head := s.heads.getD v default

/-- The node on which a head stands. -/
def top (s : Stack) (v : Nat) : StackNode := s.node (s.head v).node

def state (s : Stack) (v : Nat) : Nat := (s.top v).state

def place (s : Stack) (v : Nat) : Position := (s.top v).place

def size (s : Stack) : Nat := s.heads.length

def modifyHead (s : Stack) (v : Nat) (f : Head → Head) : Stack :=
  { s with heads := s.heads.modify v f }

def remove (s : Stack) (v : Nat) : Stack := { s with heads := s.heads.eraseIdx v }

def halt (s : Stack) (v : Nat) : Stack := s.modifyHead v fun h => { h with status := .halted }

/-- Goes on to a state over a tree, or over nothing where the reading is lost. -/
def push (s : Stack) (v : Nat) (tree : Option Subtree) (state : Nat) : Stack :=
  let h := s.head v
  let below := s.node h.node
  let node : StackNode :=
    match tree with
    | none => { below with state, links := [⟨h.node, none⟩] }
    | some t =>
      { state, links := [⟨h.node, tree⟩]
        place := if below.place.byte < t.stop.byte then t.stop else below.place
        cost := below.cost + t.cost
        count := below.count + t.nodeCount
        weight := below.weight + t.weight }
  let s := { s with nodes := s.nodes.push node }
  s.modifyHead v fun h =>
    { h with
      node := s.nodes.size - 1
      countAtError := if tree.isNone then node.count else h.countAtError }

/-- A second head on the same node. -/
def duplicate (s : Stack) (v : Nat) : Nat × Stack :=
  let h := s.head v
  (s.size, { s with heads := s.heads ++ [⟨h.node, h.countAtError, .active, []⟩] })

/-! ## Joining readings -/

def sameTree : Option Subtree → Option Subtree → Bool
  | none, none => true
  | some a, some b => a.interchangeable b
  | _, _ => false

/-- Two nodes that can be one. -/
def joinable (a b : StackNode) : Bool := a.state = b.state && a.place = b.place && a.cost = b.cost

def weightOf : Option Subtree → Int
  | none => 0
  | some t => t.weight

def countOf : Option Subtree → Nat
  | none => 0
  | some t => t.nodeCount

/-- Adds a link to a node. A link that differs from an old one only further back is joined with it
there. -/
def addLink : Nat → Array StackNode → Nat → Link → Array StackNode
  | 0, nodes, _, _ => nodes
  | fuel + 1, nodes, n, link =>
    if link.node = n then nodes
    else
      let node := nodes.getD n default
      let target := nodes.getD link.node default
      let weight := target.weight + weightOf link.tree
      match node.links.findIdx? fun l =>
          sameTree l.tree link.tree
            && (l.node = link.node || joinable (nodes.getD l.node default) target) with
      | some i =>
        let old := node.links.getD i default
        if old.node = link.node then
          if weightOf old.tree < weightOf link.tree then
            nodes.modify n fun x => { x with links := x.links.set i link, weight := weight }
          else nodes
        else
          -- the same tree stands on another node: what is behind the two is joined instead
          let nodes := target.links.foldl (fun nodes l => addLink fuel nodes old.node l) nodes
          nodes.modify n fun x => { x with weight := max x.weight weight }
      | none =>
        if maxLinks ≤ node.links.length then nodes
        else
          nodes.modify n fun x =>
            { x with
              links := x.links ++ [link]
              count := max x.count (target.count + countOf link.tree)
              weight := max x.weight weight }

def canMerge (s : Stack) (a b : Nat) : Bool :=
  (s.head a).status.isActive && (s.head b).status.isActive && joinable (s.top a) (s.top b)

/-- Joins the second head to the first, if they stand at the same place in the same state. -/
def merge (s : Stack) (a b : Nat) : Option Stack :=
  if s.canMerge a b then
    let n := (s.head a).node
    let nodes := (s.top b).links.foldl (fun nodes l => addLink nodes.size nodes n l) s.nodes
    let s := { s with nodes }
    let s := if s.state a = Automaton.lost then
        s.modifyHead a fun h => { h with countAtError := (s.top a).count }
      else s
    some (s.remove b)
  else none

/-- Joins a head to the first head before `bound` that it can be joined to. -/
def mergeBelow (s : Stack) (v : Nat) (first bound : Nat) (except : Option Nat) : Option Stack :=
  go ((List.range bound).drop first)
where
  go : List Nat → Option Stack
  | [] => none
  | j :: js =>
    if except = some j then go js
    else
      match s.merge j v with
      | some s => some s
      | none => go js

/-- Puts a head in the place of another. -/
def replace (s : Stack) (source target : Nat) : Stack :=
  if source = target then s
  else
    let h := s.head source
    let old := s.head target
    let h := if h.landmarks.isEmpty then { h with landmarks := old.landmarks } else h
    { s with heads := (s.heads.set target h).eraseIdx source }

/-! ## Ways back -/

/-- A way back from a head: the node it has come to, the trees passed, in the order of the text, and
their number without those that may stand anywhere. -/
structure Trail where
  node : Nat
  trees : List Subtree
  count : Nat

/-- What to do at a node on a way back. -/
structure Visit where
  take : Bool
  stop : Bool

def Trail.follow (t : Trail) (l : Link) : Trail :=
  match l.tree with
  | none => { t with node := l.node, count := t.count + 1 }
  | some x =>
    { node := l.node, trees := x :: t.trees
      count := if x.extra then t.count else t.count + 1 }

/-- One step of all ways back. The first link of a node continues its trail; the others begin new
ones behind the old. -/
def walkRound {σ : Type} (s : Stack) (visit : σ → Trail → Visit × σ) :
    List Trail → List Trail → List Trail → List Trail → σ → List Trail × List Trail × σ
  | [], kept, added, taken, x => (kept.reverse ++ added.reverse, taken, x)
  | t :: rest, kept, added, taken, x =>
    let (v, x) := visit x t
    let taken := if v.take then t :: taken else taken
    match (s.node t.node).links with
    | [] => walkRound s visit rest kept added taken x
    | l :: ls =>
      if v.stop then walkRound s visit rest kept added taken x
      else
        let free := maxTrails - (kept.length + 1 + rest.length + added.length)
        let new := (ls.take free).map t.follow
        walkRound s visit rest (t.follow l :: kept) (new.reverse ++ added) taken x

def walkAll {σ : Type} (s : Stack) (visit : σ → Trail → Visit × σ) :
    Nat → List Trail → List Trail → σ → List Trail × σ
  | 0, _, taken, x => (taken.reverse, x)
  | _, [], taken, x => (taken.reverse, x)
  | fuel + 1, trails, taken, x =>
    let (trails, taken, x) := walkRound s visit trails [] [] taken x
    walkAll s visit fuel trails taken x

/-- Follows all ways back from a head and returns the trails that were taken, in order. -/
def walk {σ : Type} (s : Stack) (v : Nat) (visit : σ → Trail → Visit × σ) (x : σ) :
    List Trail × σ :=
  walkAll s visit (s.nodes.size + 1) [⟨(s.head v).node, [], 0⟩] [] x

/-- The trees on the ways back that lead to one node, and the head that was put there. -/
structure Slice where
  head : Nat
  trees : List (List Subtree)

/-- Puts a head at the end of each trail; trails that end in one node share it. -/
def slice (s : Stack) (v : Nat) (trails : List Trail) : List Slice × Stack :=
  let (groups, s) := trails.foldl (fun (acc : List (Nat × Slice) × Stack) t =>
      let (groups, s) := acc
      if groups.any (·.1 = t.node) then
        (groups.map fun (n, g) =>
          if n = t.node then (n, { g with trees := g.trees ++ [t.trees] }) else (n, g), s)
      else
        (groups ++ [(t.node, ⟨s.size, [t.trees]⟩)],
          { s with heads := s.heads ++ [⟨t.node, (s.head v).countAtError, .active, []⟩] }))
    ([], s)
  (groups.map (·.2), s)

/-- Goes back over a number of trees. -/
def pop (s : Stack) (v count : Nat) : List Slice × Stack :=
  let visit (_ : Unit) (t : Trail) : Visit × Unit := (⟨t.count = count, t.count = count⟩, ())
  s.slice v (s.walk v visit ()).1

/-- Goes back to the beginning of the text. -/
def popAll (s : Stack) (v : Nat) : List Slice × Stack :=
  let visit (_ : Unit) (t : Trail) : Visit × Unit :=
    let atStart := (s.node t.node).links.isEmpty
    (⟨atStart, atStart⟩, ())
  s.slice v (s.walk v visit ()).1

/-- Goes back over one error. -/
def popError (s : Stack) (v : Nat) : List Slice × Stack :=
  let visit (found : Bool) (t : Trail) : Visit × Bool :=
    match t.trees with
    | [] => (⟨false, false⟩, found)
    | x :: _ => if !found && x.label = .error then (⟨true, true⟩, true) else (⟨false, true⟩, found)
  s.slice v (s.walk v visit false).1

/-- How far back landmarks are looked for. -/
def maxDepth : Nat := 16

/-- Notes the states on the ways back. -/
def survey (s : Stack) (v : Nat) : List Landmark :=
  let visit (found : List Landmark) (t : Trail) : Visit × List Landmark :=
    if maxDepth < t.count then (⟨false, true⟩, found)
    else
      let node := s.node t.node
      let near := found.takeWhile (t.count ≤ ·.depth)
      if near.any fun l => l.depth = t.count && l.state = node.state then (⟨false, false⟩, found)
      else (⟨false, false⟩, ⟨node.state, t.count, node.place⟩ :: found)
  (s.walk v visit []).2.reverse

/-! ## Comparing readings -/

/-- The cost of a reading so far. -/
def cost (s : Stack) (v : Nat) : Nat :=
  let n := s.top v
  let isFresh := n.state = Automaton.lost && (n.links.head?.map (·.tree.isNone)).getD false
  n.cost + if (s.head v).status.isPaused || isFresh then repairCost else 0

/-- The number of tree nodes since the last error. -/
def progress (s : Stack) (v : Nat) : Nat := (s.top v).count - (s.head v).countAtError

structure Standing where
  cost : Nat
  progress : Nat
  weight : Int
  inError : Bool

def standing (s : Stack) (v : Nat) : Standing :=
  let paused := (s.head v).status.isPaused
  { cost := s.cost v + if paused then skippedTreeCost else 0
    progress := s.progress v
    weight := (s.top v).weight
    inError := paused || s.state v = Automaton.lost }

inductive Preference
  | takeLeft
  | preferLeft
  | either
  | preferRight
  | takeRight
deriving DecidableEq

/-- A difference in cost, weighed by progress, above which the dearer reading is given up. -/
def maxCostDifference : Nat := 1800

namespace Standing

def compare (a b : Standing) : Preference :=
  if !a.inError && b.inError then if a.cost < b.cost then .takeLeft else .preferLeft
  else if a.inError && !b.inError then if b.cost < a.cost then .takeRight else .preferRight
  else if a.cost < b.cost then
    if maxCostDifference < (b.cost - a.cost) * (1 + a.progress) then .takeLeft else .preferLeft
  else if b.cost < a.cost then
    if maxCostDifference < (a.cost - b.cost) * (1 + b.progress) then .takeRight else .preferRight
  else if b.weight < a.weight then .preferLeft
  else if a.weight < b.weight then .preferRight
  else .either

end Standing

end Stack

end DefectScan.Parse
