/-!
# Differences of two sequences

The difference is found by dividing the problem at the middle of a shortest path through the edit
graph, and then tidied: insertions are moved up and down over equal items, and neighbouring steps of
one kind become one.
-/

namespace DefectScan.Patch

inductive Tag
  | equal
  | delete
  | insert
deriving DecidableEq, Repr

/-- A step of a difference: a range of the old items and a range of the new ones. -/
structure Op where
  tag : Tag
  old : Nat
  oldLength : Nat
  new : Nat
  newLength : Nat
deriving DecidableEq, Repr

instance : Inhabited Op := ⟨⟨.equal, 0, 0, 0, 0⟩⟩

namespace Op

def equal (old new length : Nat) : Op := ⟨.equal, old, length, new, length⟩

def delete (old length new : Nat) : Op := ⟨.delete, old, length, new, 0⟩

def insert (old new length : Nat) : Op := ⟨.insert, old, 0, new, length⟩

def oldStop (o : Op) : Nat := o.old + o.oldLength

def newStop (o : Op) : Nat := o.new + o.newLength

def isEmpty (o : Op) : Bool := o.oldLength = 0 && o.newLength = 0

/-- Adds to the lengths that a step has. -/
def lengthen (n : Nat) (o : Op) : Op :=
  match o.tag with
  | .equal => { o with oldLength := o.oldLength + n, newLength := o.newLength + n }
  | .delete => { o with oldLength := o.oldLength + n }
  | .insert => { o with newLength := o.newLength + n }

def shorten (n : Nat) (o : Op) : Op :=
  { o with oldLength := o.oldLength - n, newLength := o.newLength - n }

def moveUp (n : Nat) (o : Op) : Op := { o with old := o.old - n, new := o.new - n }

def moveDown (n : Nat) (o : Op) : Op := { o with old := o.old + n, new := o.new + n }

end Op

/-! ## Common ends -/

section

variable {α : Type} [BEq α]

/-- Whether two places hold equal items. -/
def sameAt (a b : Array α) (i j : Nat) : Bool :=
  match a[i]?, b[j]? with
  | some x, some y => x == y
  | _, _ => false

/-- How many items are equal from two places on, at most `n`. -/
def commonStart (a b : Array α) : Nat → Nat → Nat → Nat
  | _, _, 0 => 0
  | i, j, n + 1 => if sameAt a b i j then commonStart a b (i + 1) (j + 1) n + 1 else 0

/-- How many items are equal before two places, at most `n`. -/
def commonEnd (a b : Array α) : Nat → Nat → Nat → Nat
  | _, _, 0 => 0
  | 0, _, _ => 0
  | _, 0, _ => 0
  | i + 1, j + 1, n + 1 => if sameAt a b i j then commonEnd a b i j n + 1 else 0

/-! ## The middle of a shortest path -/

/-- How far the search has come on each diagonal. -/
structure Front where
  center : Nat
  reached : Array Int

namespace Front

def initial (bound : Nat) : Front :=
  ⟨bound + 1, Array.replicate (2 * bound + 3) 0⟩

def get (f : Front) (k : Int) : Int := f.reached.getD (k + f.center).toNat 0

def set (f : Front) (k x : Int) : Front :=
  { f with reached := f.reached.setIfInBounds (k + f.center).toNat x }

/-- Where a path of length `d` enters a diagonal. -/
def enter (f : Front) (d k : Int) : Int :=
  if k = -d || (k ≠ d && f.get (k - 1) < f.get (k + 1)) then f.get (k + 1) else f.get (k - 1) + 1

end Front

/-- A part of the problem: a range of the old items and one of the new ones. -/
structure Box where
  old : Nat
  oldStop : Nat
  new : Nat
  newStop : Nat

namespace Box

def height (b : Box) : Nat := b.oldStop - b.old

def width (b : Box) : Nat := b.newStop - b.new

/-- A bound on the half of the length of a shortest path. -/
def bound (b : Box) : Nat := (b.height + b.width + 1) / 2 + 1

end Box

def diagonals (d : Nat) : List Int := (List.range (d + 1)).map fun (i : Nat) => (d : Int) - 2 * i

/-- Extends the paths from the start by one step; returns where they meet those from the end. -/
def searchForward (old new : Array α) (b : Box) (d : Nat) (back : Front) :
    List Int → Front → Front × Option (Int × Int)
  | [], front => (front, none)
  | k :: ks, front =>
    let x := front.enter d k
    let y := x - k
    let run := if x < b.height && y < b.width then
        commonStart old new (b.old + x.toNat) (b.new + y.toNat)
          (min (b.height - x.toNat) (b.width - y.toNat))
      else 0
    let front := front.set k (x + run)
    let delta : Int := (b.height : Int) - b.width
    -- a path of odd length is completed here, one of even length from the other end
    if delta % 2 = 1 && (k - delta).natAbs + 1 ≤ d
        && (b.height : Int) ≤ front.get k + back.get (-(k - delta)) then
      (front, some (x, y))
    else searchForward old new b d back ks front

/-- Extends the paths from the end by one step; returns where they meet those from the start. -/
def searchBackward (old new : Array α) (b : Box) (d : Nat) (front : Front) :
    List Int → Front → Front × Option (Int × Int)
  | [], back => (back, none)
  | k :: ks, back =>
    let x := back.enter d k
    let y := x - k
    let run := if x < b.height && y < b.width then
        commonEnd old new (b.oldStop - x.toNat) (b.newStop - y.toNat)
          (min (b.height - x.toNat) (b.width - y.toNat))
      else 0
    let x := x + run
    let y := y + run
    let back := back.set k x
    let delta : Int := (b.height : Int) - b.width
    if delta % 2 = 0 && (k - delta).natAbs ≤ d
        && (b.height : Int) ≤ back.get k + front.get (-(k - delta)) then
      (back, some (b.height - x, b.width - y))
    else searchBackward old new b d front ks back

def searchMiddle (old new : Array α) (b : Box) : List Nat → Front → Front → Option (Int × Int)
  | [], _, _ => none
  | d :: ds, front, back =>
    match searchForward old new b d back (diagonals d) front with
    | (_, some p) => some p
    | (front, none) =>
      match searchBackward old new b d front (diagonals d) back with
      | (_, some p) => some p
      | (back, none) => searchMiddle old new b ds front back

/-- A place on a shortest path at which the problem can be divided. -/
def middle (old new : Array α) (b : Box) : Option (Nat × Nat) :=
  let start := Front.initial b.bound
  (searchMiddle old new b (List.range b.bound) start start).map fun (x, y) =>
    (b.old + x.toNat, b.new + y.toNat)

/-- The difference of the items in a box. -/
def conquer (old new : Array α) : Nat → Box → List Op
  | 0, _ => []
  | fuel + 1, b =>
    let head := commonStart old new b.old b.new (min b.height b.width)
    let first := if 0 < head then [Op.equal b.old b.new head] else []
    let b := { b with old := b.old + head, new := b.new + head }
    let tail := commonEnd old new b.oldStop b.newStop (min b.height b.width)
    let b := { b with oldStop := b.oldStop - tail, newStop := b.newStop - tail }
    let last := if 0 < tail then [Op.equal b.oldStop b.newStop tail] else []
    let inner :=
      if b.height = 0 && b.width = 0 then []
      else if b.width = 0 then [Op.delete b.old b.height b.new]
      else if b.height = 0 then [Op.insert b.old b.new b.width]
      else
        match middle old new b with
        | some (x, y) =>
          conquer old new fuel { b with oldStop := x, newStop := y }
            ++ conquer old new fuel { b with old := x, new := y }
        | none => [Op.delete b.old b.height b.new, Op.insert b.old b.new b.width]
    first ++ inner ++ last

/-! ## Tidying -/

def opAt (ops : List Op) (i : Nat) : Op := ops.getD i default

def tagAt? (ops : List Op) (i : Nat) : Option Tag := ops[i]?.map (·.tag)

/-- How many items a step can be moved up over the equal items before it. Deletions stay. -/
def roomAbove (old new : Array α) (above here : Op) : Nat :=
  match here.tag with
  | .insert => commonEnd old new above.oldStop here.newStop (min above.oldLength here.newLength)
  | _ => 0

/-- How many items a step can be moved down over the equal items behind it. Deletions stay. -/
def roomBelow (old new : Array α) (below here : Op) : Nat :=
  match here.tag with
  | .insert => commonStart old new below.old here.new (min below.oldLength here.newLength)
  | _ => 0

/-- Moves the step at `i` up; returns where it has come to. -/
def shiftUp (old new : Array α) : Nat → List Op → Nat → List Op × Nat
  | 0, ops, i => (ops, i)
  | _, ops, 0 => (ops, 0)
  | fuel + 1, ops, i + 1 =>
    let above := opAt ops i
    let here := opAt ops (i + 1)
    if above.tag = .equal then
      let n := roomAbove old new above here
      if 0 < n then
        -- the items that are passed over go behind the step
        let ops :=
          if tagAt? ops (i + 2) = some .equal then
            ops.modify (i + 2) fun o => (o.moveUp n).lengthen n
          else
            ops.insertIdx (i + 2) (.equal (above.oldStop - n) (here.newStop - n) n)
        let ops := (ops.modify (i + 1) (·.moveUp n)).modify i (·.shorten n)
        if (opAt ops i).isEmpty then shiftUp old new fuel (ops.eraseIdx i) i
        else shiftUp old new fuel ops (i + 1)
      else if above.isEmpty then shiftUp old new fuel (ops.eraseIdx i) i
      else (ops, i + 1)
    else if above.tag = here.tag then
      let n := if here.tag = .insert then here.newLength else here.oldLength
      shiftUp old new fuel ((ops.modify i (·.lengthen n)).eraseIdx (i + 1)) i
    -- a change of the other kind is passed as a whole
    else shiftUp old new fuel ((ops.set i here).set (i + 1) above) i

/-- Moves the step at `i` down; returns where it has come to. -/
def shiftDown (old new : Array α) : Nat → List Op → Nat → List Op × Nat
  | 0, ops, i => (ops, i)
  | fuel + 1, ops, i =>
    match ops[i + 1]? with
    | none => (ops, i)
    | some below =>
      let here := opAt ops i
      if below.tag = .equal then
        let n := roomBelow old new below here
        if 0 < n then
          -- here they go before it, which may move its own place
          let (ops, i) :=
            if 0 < i && tagAt? ops (i - 1) = some .equal then
              (ops.modify (i - 1) (·.lengthen n), i)
            else (ops.insertIdx i (.equal below.old here.new n), i + 1)
          let ops := (ops.modify i (·.moveDown n)).modify (i + 1) fun o => (o.moveDown n).shorten n
          if (opAt ops (i + 1)).isEmpty then shiftDown old new fuel (ops.eraseIdx (i + 1)) i
          else shiftDown old new fuel ops i
        else if below.isEmpty then shiftDown old new fuel (ops.eraseIdx (i + 1)) i
        else (ops, i)
      else if below.tag = here.tag then
        let n := if here.tag = .insert then below.newLength else below.oldLength
        shiftDown old new fuel ((ops.modify i (·.lengthen n)).eraseIdx (i + 1)) i
      else shiftDown old new fuel ((ops.set i below).set (i + 1) here) (i + 1)

/-- Moves all steps of one kind up and then down. -/
def tidyTag (old new : Array α) (tag : Tag) : Nat → List Op → Nat → List Op
  | 0, ops, _ => ops
  | fuel + 1, ops, i =>
    match ops[i]? with
    | none => ops
    | some o =>
      if o.tag = tag then
        let bound := 4 * (old.size + new.size) + 4 * ops.length + 4
        let (ops, i) := shiftUp old new bound ops i
        let (ops, i) := shiftDown old new bound ops i
        tidyTag old new tag fuel ops (i + 1)
      else tidyTag old new tag fuel ops (i + 1)

/-- Joins neighbouring deletions, and then insertions, which are moved to where they can join. -/
def tidy (old new : Array α) (ops : List Op) : List Op :=
  let bound := 4 * (old.size + new.size) + 4 * ops.length + 4
  tidyTag old new .insert bound (tidyTag old new .delete bound ops 0) 0

/-- The steps from the old items to the new ones. -/
def diff (old new : Array α) : List Op :=
  tidy old new (conquer old new (old.size + new.size + 1) ⟨0, old.size, 0, new.size⟩)

end

end DefectScan.Patch
