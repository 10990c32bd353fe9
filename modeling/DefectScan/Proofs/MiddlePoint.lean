import Mathlib.Data.List.Nodup
import DefectScan.Proofs.EditPath

/-!
# The middle of a path

The search for the middle keeps two fronts, one of paths from the start of the problem and one of
paths from its end. Both are extended by the same step (`extend`), and what is known of a front
after `d` steps (`Front.Fresh`) does not depend on which one it is: a point may lie outside the
problem only behind a neighbour that has come to its border.

As long as the fronts have not met, each is inside the problem near the diagonal of the other's
corner (`Front.Apart`). So the point at which they meet is inside, and it is neither corner: both
parts of the divided problem are smaller, and what divides it again and again is a path

    Path old new K b.old b.new (conquer old new fuel b) b.oldStop b.newStop
-/

namespace DefectScan.Patch

/-! ## Diagonals -/

/-- The diagonals that paths of `d` steps end on. -/
def OnStep (d : Nat) (k : Int) : Prop := -d ≤ k ∧ k ≤ d ∧ (k + d) % 2 = 0

theorem mem_diagonals {d : Nat} {k : Int} : k ∈ diagonals d ↔ OnStep d k := by
  simp only [diagonals, List.mem_map, List.mem_range, OnStep]
  constructor
  · rintro ⟨i, hi, rfl⟩
    omega
  · rintro ⟨hlow, hhigh, hparity⟩
    exact ⟨((d - k) / 2).toNat, by omega, by omega⟩

theorem OnStep.pred {d : Nat} {k : Int} (h : OnStep (d + 1) k) (hk : -(d + 1 : Nat) < k) :
    OnStep d (k - 1) := by
  simp only [OnStep] at *
  omega

theorem OnStep.succ {d : Nat} {k : Int} (h : OnStep (d + 1) k) (hk : k < (d + 1 : Nat)) :
    OnStep d (k + 1) := by
  simp only [OnStep] at *
  omega

theorem OnStep.one_le {d : Nat} {k : Int} (h : OnStep d (k - 1)) (h' : OnStep d (k + 1)) :
    1 ≤ d := by
  simp only [OnStep] at *
  omega

theorem OnStep.eq_zero {k : Int} (h : OnStep 0 k) : k = 0 := by
  simp only [OnStep] at h
  omega

theorem nodup_diagonals (d : Nat) : (diagonals d).Nodup := by
  refine List.Nodup.map_on ?_ List.nodup_range
  intro i _ j _ h
  omega

namespace Front

/-! ## Places of a front -/

/-- A front with places for the diagonals from `-c` to `c`. -/
def Sized (c : Nat) (f : Front) : Prop := f.center = c ∧ f.reached.size = 2 * c + 1

variable {c : Nat} {f : Front}

theorem sized_initial (bound : Nat) : (initial bound).Sized (bound + 1) :=
  ⟨rfl, by simp only [initial, Array.size_replicate]; omega⟩

theorem get_initial (bound : Nat) (k : Int) : (initial bound).get k = 0 := by
  simp only [initial, get, Array.getD_eq_getD_getElem?, Array.getElem?_replicate]
  split <;> rfl

theorem Sized.set (hf : f.Sized c) (k x : Int) : (f.set k x).Sized c :=
  ⟨hf.1, by rw [Front.set, Array.size_setIfInBounds]; exact hf.2⟩

theorem get_set_self (hf : f.Sized c) {k : Int} (hk : -c ≤ k ∧ k ≤ c) (x : Int) :
    (f.set k x).get k = x := by
  obtain ⟨hcenter, hsize⟩ := hf
  simp only [get, Front.set, Array.getD_eq_getD_getElem?, hcenter]
  rw [Array.getElem?_setIfInBounds_self_of_lt (by omega)]
  rfl

theorem get_set_of_ne (hf : f.Sized c) {j k : Int} (hj : -c ≤ j ∧ j ≤ c) (hk : -c ≤ k ∧ k ≤ c)
    (hne : j ≠ k) (x : Int) : (f.set k x).get j = f.get j := by
  obtain ⟨hcenter, hsize⟩ := hf
  simp only [get, Front.set, Array.getD_eq_getD_getElem?, hcenter]
  rw [Array.getElem?_setIfInBounds_ne (by omega)]

/-- A path enters a diagonal from one of its neighbours, the one that leads further. -/
theorem enter_cases {d : Nat} {k : Int} (f : Front) (hk : OnStep (d + 1) k) :
    (OnStep d (k + 1) ∧ f.enter (d + 1 : Nat) k = f.get (k + 1) ∧
        (OnStep d (k - 1) → f.get (k - 1) < f.get (k + 1))) ∨
      (OnStep d (k - 1) ∧ f.enter (d + 1 : Nat) k = f.get (k - 1) + 1 ∧
        (OnStep d (k + 1) → f.get (k + 1) ≤ f.get (k - 1))) := by
  simp only [OnStep] at *
  unfold enter
  split
  · next h =>
    simp only [Bool.or_eq_true, Bool.and_eq_true, decide_eq_true_eq] at h
    left
    refine ⟨by omega, rfl, fun _ => by omega⟩
  · next h =>
    simp only [Bool.or_eq_true, Bool.and_eq_true, decide_eq_true_eq] at h
    right
    refine ⟨by omega, rfl, fun _ => by omega⟩

/-! ## A front after some steps -/

/-- What is known of the points that paths of `d` steps have reached. The second and third of the
bounds are those of the other coordinate; a point beyond a border has a neighbour at that border. -/
structure Fresh (N M : Int) (d : Nat) (f : Front) : Prop where
  start : d = 0 → f.get 0 = 0
  nonneg : ∀ k, OnStep d k → 0 ≤ f.get k ∧ k ≤ f.get k
  long : ∀ k, OnStep d k → d ≤ f.get k + (f.get k - k)
  old : ∀ k, OnStep d k → N < f.get k → OnStep d (k - 2) ∧ N ≤ f.get (k - 2)
  new : ∀ k, OnStep d k → M < f.get k - k → OnStep d (k + 2) ∧ M ≤ f.get (k + 2) - (k + 2)

/-- A front from which the paths of `d` steps can be made. -/
def Ready (N M : Int) : Nat → Front → Prop
  | 0, f => f.get 1 = 0
  | d + 1, f => f.Fresh N M d

/-- What is known of the point at which a path enters a diagonal. -/
structure Entered (N M : Int) (d : Nat) (f : Front) (k x : Int) : Prop where
  start : d = 0 → x = 0
  nonneg : 0 ≤ x ∧ k ≤ x
  long : d ≤ x + (x - k)
  above : k < d → f.get (k + 1) ≤ x
  below : -d < k → f.get (k - 1) < x
  old : N < x → -d < k ∧ N ≤ f.get (k - 1)
  new : M < x - k → k < d ∧ M ≤ f.get (k + 1) - (k + 1)

variable {N M : Int}

theorem Ready.entered {d : Nat} {k : Int} (hf : f.Ready N M d) (hN : 0 ≤ N) (hM : 0 ≤ M)
    (hk : OnStep d k) : Entered N M d f k (f.enter d k) := by
  cases d with
  | zero =>
    have hk0 := hk.eq_zero
    have hx : f.enter (0 : Nat) k = 0 := by
      subst hk0
      exact hf
    subst hk0
    rw [hx]
    constructor <;> omega
  | succ d =>
    have hfresh : f.Fresh N M d := hf
    rcases enter_cases f hk with ⟨hon, hx, hother⟩ | ⟨hon, hx, hother⟩
    · rw [hx]
      have hnonneg := hfresh.nonneg _ hon
      have hlong := hfresh.long _ hon
      have hold := hfresh.old _ hon
      rw [show k + 1 - 2 = k - 1 by omega] at hold
      simp only [OnStep] at *
      refine ⟨by omega, by omega, by omega, by omega, by omega, by omega, by omega⟩
    · rw [hx]
      have hnonneg := hfresh.nonneg _ hon
      have hlong := hfresh.long _ hon
      have hnew := hfresh.new _ hon
      rw [show k - 1 + 2 = k + 1 by omega] at hnew
      simp only [OnStep] at *
      refine ⟨by omega, by omega, by omega, by omega, by omega, by omega, by omega⟩

end Front

/-! ## One more step -/

/-- The runs of equal items that a front is extended by stay inside the problem, and there is none
at its corner. -/
structure Runs (N M : Int) (run : Int → Int → Nat) : Prop where
  within : ∀ x y, 0 ≤ x → 0 ≤ y → 0 < run x y → x + run x y ≤ N ∧ y + run x y ≤ M
  start : run 0 0 = 0

/-- Where a path of `d` steps comes to on a diagonal. -/
def reach (run : Int → Int → Nat) (d : Nat) (f : Front) (k : Int) : Int :=
  f.enter d k + run (f.enter d k) (f.enter d k - k)

/-- Extends the paths of a front by one step, until one of them meets the other front. -/
def extend (run : Int → Int → Nat) (meets : Int → Int → Bool) (d : Nat)
    (answer : Int → Int → Int → Int × Int) : List Int → Front → Front × Option (Int × Int)
  | [], f => (f, none)
  | k :: ks, f =>
    let f' := f.set k (reach run d f k)
    if meets k (f'.get k) then (f', some (answer k (f.enter d k) (reach run d f k)))
    else extend run meets d answer ks f'

section

variable {c d : Nat} {f f' : Front} {run : Int → Int → Nat} {meets : Int → Int → Bool}
  {answer : Int → Int → Int → Int × Int} {N M : Int}

/-- A step reads only diagonals that it does not write. -/
theorem Front.enter_set (hf : f.Sized c) (hd : d < c) {j k : Int} (hj : OnStep d j)
    (hk : OnStep d k) (x : Int) : (f.set k x).enter d j = f.enter d j := by
  simp only [OnStep] at hj hk
  unfold Front.enter
  rw [Front.get_set_of_ne hf (by omega) (by omega) (by omega),
    Front.get_set_of_ne hf (by omega) (by omega) (by omega)]

theorem reach_set (hf : f.Sized c) (hd : d < c) {j k : Int} (hj : OnStep d j) (hk : OnStep d k)
    (x : Int) : reach run d (f.set k x) j = reach run d f j := by
  unfold reach
  rw [Front.enter_set hf hd hj hk]

theorem extend_none {ks : List Int} (hf : f.Sized c) (hd : d < c) (hks : ∀ k ∈ ks, OnStep d k)
    (hnodup : ks.Nodup) (h : extend run meets d answer ks f = (f', none)) :
    f'.Sized c ∧ (∀ j : Int, -c ≤ j → j ≤ c → j ∉ ks → f'.get j = f.get j) ∧
      ∀ k ∈ ks, f'.get k = reach run d f k ∧ meets k (f'.get k) = false := by
  induction ks generalizing f with
  | nil =>
    obtain ⟨rfl, -⟩ := Prod.mk.inj h
    exact ⟨hf, fun _ _ _ _ => rfl, fun _ hk => absurd hk List.not_mem_nil⟩
  | cons k ks ih =>
    have hk : OnStep d k := hks k List.mem_cons_self
    have hrange : -c ≤ k ∧ k ≤ c := by
      simp only [OnStep] at hk
      omega
    obtain ⟨hnot, hnodup⟩ := List.nodup_cons.1 hnodup
    simp only [extend] at h
    split at h
    · simp at h
    · next hmeets =>
      obtain ⟨hsized, hframe, hwritten⟩ :=
        ih (hf.set k _) (fun j hj => hks j (List.mem_cons_of_mem k hj)) hnodup h
      have hself : f'.get k = reach run d f k := by
        rw [hframe k hrange.1 hrange.2 hnot, Front.get_set_self hf hrange]
      refine ⟨hsized, ?_, ?_⟩
      · intro j hlow hhigh hj
        rw [List.mem_cons, not_or] at hj
        obtain ⟨hne, hj⟩ := hj
        rw [hframe j hlow hhigh hj, Front.get_set_of_ne hf ⟨hlow, hhigh⟩ hrange hne]
      · intro j hj
        rcases List.mem_cons.1 hj with rfl | hj
        · rw [Front.get_set_self hf hrange] at hmeets
          exact ⟨hself, by rw [hself]; simpa using hmeets⟩
        · rw [← reach_set hf hd (hks j (List.mem_cons_of_mem k hj)) hk]
          exact hwritten j hj

theorem extend_some {ks : List Int} {p : Int × Int} (hf : f.Sized c) (hd : d < c)
    (hks : ∀ k ∈ ks, OnStep d k) (h : extend run meets d answer ks f = (f', some p)) :
    ∃ k, OnStep d k ∧ meets k (reach run d f k) = true ∧
      p = answer k (f.enter d k) (reach run d f k) := by
  induction ks generalizing f with
  | nil => simp [extend] at h
  | cons k ks ih =>
    have hk : OnStep d k := hks k List.mem_cons_self
    have hrange : -c ≤ k ∧ k ≤ c := by
      simp only [OnStep] at hk
      omega
    simp only [extend] at h
    split at h
    · next hmeets =>
      rw [Front.get_set_self hf hrange] at hmeets
      exact ⟨k, hk, hmeets, (Option.some.inj (Prod.mk.inj h).2).symm⟩
    · obtain ⟨j, hj, hmeets, hp⟩ :=
        ih (hf.set k _) (fun j hj => hks j (List.mem_cons_of_mem k hj)) h
      rw [reach_set hf hd hj hk] at hmeets hp
      rw [Front.enter_set hf hd hj hk] at hp
      exact ⟨j, hj, hmeets, hp⟩

/-- The points that one more step reaches are as those before it. -/
theorem Front.Ready.fresh (hrun : Runs N M run) (hN : 0 ≤ N) (hM : 0 ≤ M) (hf : f.Ready N M d)
    (hget : ∀ k, OnStep d k → f'.get k = reach run d f k) : f'.Fresh N M d := by
  have hentered : ∀ k, OnStep d k → Front.Entered N M d f k (f.enter d k) :=
    fun k hk => hf.entered hN hM hk
  -- a run ends inside the problem, so a point beyond it was there before the run
  have hwithin : ∀ k, OnStep d k → f.enter d k < reach run d f k →
      reach run d f k ≤ N ∧ reach run d f k - k ≤ M := by
    intro k hk hlt
    have hnonneg := (hentered k hk).nonneg
    have := hrun.within (f.enter d k) (f.enter d k - k) hnonneg.1 (by omega)
    unfold reach at hlt ⊢
    omega
  have hle : ∀ k, f.enter d k ≤ reach run d f k := by
    intro k
    unfold reach
    omega
  constructor
  · intro hd
    have h0 : OnStep d 0 := by
      simp only [OnStep]
      omega
    rw [hget 0 h0, reach, (hentered 0 h0).start hd, Int.sub_zero, hrun.start]
    rfl
  · intro k hk
    have hnonneg := (hentered k hk).nonneg
    have := hle k
    rw [hget k hk]
    omega
  · intro k hk
    have hlong := (hentered k hk).long
    have := hle k
    rw [hget k hk]
    omega
  · intro k hk hN
    rw [hget k hk] at hN
    have hwithin := hwithin k hk
    have hle' := hle k
    have hold := (hentered k hk).old (by omega)
    have hk2 : OnStep d (k - 2) := by
      simp only [OnStep] at hk ⊢
      omega
    have habove := (hentered (k - 2) hk2).above (by simp only [OnStep] at hk; omega)
    rw [show k - 2 + 1 = k - 1 by omega] at habove
    have := hle (k - 2)
    rw [hget (k - 2) hk2]
    exact ⟨hk2, by omega⟩
  · intro k hk hM
    rw [hget k hk] at hM
    have hwithin := hwithin k hk
    have hle' := hle k
    have hnew := (hentered k hk).new (by omega)
    have hk2 : OnStep d (k + 2) := by
      simp only [OnStep] at hk ⊢
      omega
    have hbelow := (hentered (k + 2) hk2).below (by simp only [OnStep] at hk; omega)
    rw [show k + 2 - 1 = k + 1 by omega] at hbelow
    have := hle (k + 2)
    rw [hget (k + 2) hk2]
    exact ⟨hk2, by omega⟩

/-! ## Meeting -/

/-- The points near the diagonal of the far corner are inside the problem. -/
def Front.Apart (N M : Int) (d : Nat) (r : Int) (f : Front) : Prop :=
  ∀ k, OnStep d k → -r ≤ k - (N - M) → k - (N - M) ≤ r → f.get k < N ∧ f.get k - k < M

/-- One step from fronts that have not met stays inside the problem, and does not come to its far
corner. -/
theorem Front.Fresh.enter_inside (hN : 0 < N) (hM : 0 < M) (hf : f.Fresh N M d) {r k : Int}
    (hr : r = d - 1 ∨ r = d) (hapart : f.Apart N M d r) (hk : OnStep (d + 1) k)
    (hnear : -(r + 1) ≤ k - (N - M) ∧ k - (N - M) ≤ r + 1)
    (hparity : (k - (N - M) + r + 1) % 2 = 0) :
    f.enter (d + 1 : Nat) k ≤ N ∧ f.enter (d + 1 : Nat) k - k ≤ M ∧
      f.enter (d + 1 : Nat) k + (f.enter (d + 1 : Nat) k - k) < N + M := by
  have hentered : Front.Entered N M (d + 1) f k (f.enter (d + 1 : Nat) k) :=
    Front.Ready.entered hf (Int.le_of_lt hN) (Int.le_of_lt hM) hk
  have hbelow := hapart (k - 1)
  have habove := hapart (k + 1)
  have hstart := hf.start
  have hnew := hf.new (k - 1)
  have hold := hf.old (k + 1)
  rw [show k - 1 + 2 = k + 1 by omega] at hnew
  rw [show k + 1 - 2 = k - 1 by omega] at hold
  have hx := Front.enter_cases f hk
  obtain ⟨-, -, -, -, -, hxold, hxnew⟩ := hentered
  -- of the two neighbours at most one is too far from the diagonal of the corner
  have hlow : k - (N - M) = -(r + 1) ∨ -r ≤ k - 1 - (N - M) := by omega
  have hhigh : k - (N - M) = r + 1 ∨ k + 1 - (N - M) ≤ r := by omega
  generalize f.enter (d + 1 : Nat) k = x at *
  have hxN : x ≤ N := by
    by_contra hbeyond
    obtain ⟨hleft, hget⟩ := hxold (by omega)
    have hon := hk.pred hleft
    rcases hlow with hedge | hlow
    · obtain ⟨hon', hget'⟩ := hnew hon (by omega)
      have := hon.one_le hon'
      have := habove hon' (by omega) (by omega)
      omega
    · have := hbelow hon hlow (by omega)
      omega
  have hxM : x - k ≤ M := by
    by_contra hbeyond
    obtain ⟨hright, hget⟩ := hxnew (by omega)
    have hon := hk.succ hright
    rcases hhigh with hedge | hhigh
    · obtain ⟨hon', hget'⟩ := hold hon (by omega)
      have := hon'.one_le hon
      have := hbelow hon' (by omega) (by omega)
      omega
    · have := habove hon (by omega) hhigh
      omega
  refine ⟨hxN, hxM, ?_⟩
  by_contra hcorner
  -- the far corner is entered only from a neighbour at an edge of the problem, and both are inside
  have hcenter : k = N - M := by omega
  by_cases hd : d = 0
  · subst hd
    have := hstart rfl
    rcases hx with ⟨hon, hx, -⟩ | ⟨hon, hx, -⟩
    · have hk0 := hon.eq_zero
      rw [hk0] at hx
      omega
    · have hk0 := hon.eq_zero
      rw [hk0] at hx
      omega
  · rcases hx with ⟨hon, hx, -⟩ | ⟨hon, hx, -⟩
    · have := habove hon (by omega) (by omega)
      omega
    · have := hbelow hon (by omega) (by omega)
      omega

end

/-! ## The two searches -/

section

variable {α : Type} [BEq α] {old new : Array α} {b : Box}

/-- A problem with items on both sides, of which the first ones and the last ones differ. -/
structure Box.Trimmed (old new : Array α) (b : Box) : Prop where
  old_lt : b.old < b.oldStop
  new_lt : b.new < b.newStop
  first : sameAt old new b.old b.new = false
  last : sameAt old new (b.oldStop - 1) (b.newStop - 1) = false

theorem Box.Trimmed.height_pos (hb : b.Trimmed old new) : (0 : Int) < b.height := by
  have := hb.old_lt
  simp only [Box.height]
  omega

theorem Box.Trimmed.width_pos (hb : b.Trimmed old new) : (0 : Int) < b.width := by
  have := hb.new_lt
  simp only [Box.width]
  omega

/-- A point of a problem other than its corners. -/
structure Box.Inside (b : Box) (p : Int × Int) : Prop where
  old : 0 ≤ p.1 ∧ p.1 ≤ b.height
  new : 0 ≤ p.2 ∧ p.2 ≤ b.width
  proper : 0 < p.1 + p.2 ∧ p.1 + p.2 < b.height + b.width

def runForward (old new : Array α) (b : Box) (x y : Int) : Nat :=
  if x < b.height && y < b.width then
    commonStart old new (b.old + x.toNat) (b.new + y.toNat)
      (min (b.height - x.toNat) (b.width - y.toNat))
  else 0

def runBackward (old new : Array α) (b : Box) (x y : Int) : Nat :=
  if x < b.height && y < b.width then
    commonEnd old new (b.oldStop - x.toNat) (b.newStop - y.toNat)
      (min (b.height - x.toNat) (b.width - y.toNat))
  else 0

/-- How far apart the corners of a problem are, in diagonals. -/
def Box.delta (b : Box) : Int := (b.height : Int) - b.width

def meetsForward (b : Box) (d : Nat) (back : Front) (k x : Int) : Bool :=
  b.delta % 2 = 1 && (k - b.delta).natAbs + 1 ≤ d
    && (b.height : Int) ≤ x + back.get (-(k - b.delta))

def meetsBackward (b : Box) (d : Nat) (front : Front) (k x : Int) : Bool :=
  b.delta % 2 = 0 && (k - b.delta).natAbs ≤ d
    && (b.height : Int) ≤ x + front.get (-(k - b.delta))

theorem searchForward_eq_extend (d : Nat) (back : Front) (ks : List Int) (f : Front) :
    searchForward old new b d back ks f
      = extend (runForward old new b) (meetsForward b d back) d (fun k x _ => (x, x - k)) ks f := by
  induction ks generalizing f with
  | nil => rfl
  | cons k ks ih =>
    simp only [searchForward, extend, ih]
    rfl

theorem searchBackward_eq_extend (d : Nat) (front : Front) (ks : List Int) (f : Front) :
    searchBackward old new b d front ks f
      = extend (runBackward old new b) (meetsBackward b d front) d
          (fun k _ x => (b.height - x, b.width - (x - k))) ks f := by
  induction ks generalizing f with
  | nil => rfl
  | cons k ks ih =>
    have hmoved : ∀ x run : Int, x - k + run = x + run - k := by
      intro x run
      omega
    simp only [searchBackward, extend, ih, hmoved]
    rfl

theorem Box.Trimmed.runs_forward (hb : b.Trimmed old new) :
    Runs b.height b.width (runForward old new b) := by
  constructor
  · intro x y hx hy hpos
    unfold runForward at hpos ⊢
    split at hpos
    · next h =>
      simp only [Bool.and_eq_true, decide_eq_true_eq] at h
      rw [if_pos (by simpa using h)]
      have := commonStart_le (a := old) (b := new) (b.old + x.toNat) (b.new + y.toNat)
        (min (b.height - x.toNat) (b.width - y.toNat))
      omega
    · exact absurd hpos (Nat.lt_irrefl 0)
  · unfold runForward
    split
    · generalize min (b.height - (0 : Int).toNat) (b.width - (0 : Int).toNat) = n
      cases n with
      | zero => rfl
      | succ n =>
        rw [commonStart, if_neg]
        exact Bool.eq_false_iff.1 hb.first
    · rfl

theorem Box.Trimmed.runs_backward (hb : b.Trimmed old new) :
    Runs b.height b.width (runBackward old new b) := by
  constructor
  · intro x y hx hy hpos
    unfold runBackward at hpos ⊢
    split at hpos
    · next h =>
      simp only [Bool.and_eq_true, decide_eq_true_eq] at h
      rw [if_pos (by simpa using h)]
      have := commonEnd_le (a := old) (b := new) (b.oldStop - x.toNat) (b.newStop - y.toNat)
        (min (b.height - x.toNat) (b.width - y.toNat))
      omega
    · exact absurd hpos (Nat.lt_irrefl 0)
  · unfold runBackward
    split
    · have hold := hb.old_lt
      have hnew := hb.new_lt
      have hsame := sameRun_commonEnd (a := old) (b := new) b.oldStop b.newStop
        (min b.height b.width)
      have hle := commonEnd_le (a := old) (b := new) b.oldStop b.newStop (min b.height b.width)
      show commonEnd old new b.oldStop b.newStop (min b.height b.width) = 0
      generalize commonEnd old new b.oldStop b.newStop (min b.height b.width) = n at *
      by_contra hn
      have := hsame (n - 1) (by omega)
      rw [show b.oldStop - n + (n - 1) = b.oldStop - 1 by omega,
        show b.newStop - n + (n - 1) = b.newStop - 1 by omega, hb.last] at this
      cases this
    · rfl

/-- A run of equal items from the end does not come to the start. -/
theorem Box.Trimmed.runBackward_corner (hb : b.Trimmed old new) {x y : Int} (hx : 0 ≤ x)
    (hy : 0 ≤ y) (hold : x + runBackward old new b x y = b.height)
    (hnew : y + runBackward old new b x y = b.width) : runBackward old new b x y = 0 := by
  have hlt := hb.old_lt
  have hlt' := hb.new_lt
  have hfirst := hb.first
  unfold runBackward at hold hnew ⊢
  split
  · next h =>
    rw [if_pos h] at hold hnew
    have hsame := sameRun_commonEnd (a := old) (b := new) (b.oldStop - x.toNat)
      (b.newStop - y.toNat) (min (b.height - x.toNat) (b.width - y.toNat))
    generalize commonEnd old new (b.oldStop - x.toNat) (b.newStop - y.toNat)
      (min (b.height - x.toNat) (b.width - y.toNat)) = n at *
    simp only [Box.height, Box.width] at hold hnew
    by_contra hn
    have := hsame 0 (by omega)
    rw [show b.oldStop - x.toNat - n + 0 = b.old by omega,
      show b.newStop - y.toNat - n + 0 = b.new by omega, hfirst] at this
    cases this
  · rfl

variable {c d : Nat} {front back f' : Front} {p : Int × Int}

/-- The fronts before paths of `d` steps are made. -/
structure Searched (b : Box) (c d : Nat) (front back : Front) : Prop where
  sizedFront : front.Sized c
  sizedBack : back.Sized c
  readyFront : front.Ready b.height b.width d
  readyBack : back.Ready b.height b.width d
  apartFront : b.delta % 2 = 1 → ∀ e, d = e + 1 → front.Apart b.height b.width e (e - 1)
  apartBack : b.delta % 2 = 0 → ∀ e, d = e + 1 → back.Apart b.height b.width e e

theorem Searched.forward_none (hb : b.Trimmed old new) (h : Searched b c d front back)
    (hd : d < c) (hrun : searchForward old new b d back (diagonals d) front = (f', none)) :
    f'.Sized c ∧ f'.Fresh b.height b.width d ∧
      (b.delta % 2 = 1 → f'.Apart b.height b.width d (d - 1)) := by
  rw [searchForward_eq_extend] at hrun
  obtain ⟨hsized, -, hwritten⟩ :=
    extend_none h.sizedFront hd (fun k hk => mem_diagonals.1 hk) (nodup_diagonals d) hrun
  have hfresh : f'.Fresh b.height b.width d :=
    h.readyFront.fresh hb.runs_forward (by omega) (by omega)
      fun k hk => (hwritten k (mem_diagonals.2 hk)).1
  refine ⟨hsized, hfresh, ?_⟩
  intro hodd k hk hlow hhigh
  have hnot := (hwritten k (mem_diagonals.2 hk)).2
  simp only [Box.delta] at hodd
  simp only [OnStep] at hk
  -- the other front is ahead of its own corner, so this one is behind it
  obtain _ | d := d
  · omega
  · have hback : back.Fresh b.height b.width d := h.readyBack
    have hother := hback.nonneg (-(k - b.delta)) (by simp only [OnStep, Box.delta]; omega)
    rw [Bool.eq_false_iff] at hnot
    simp only [meetsForward, ne_eq, Bool.and_eq_true, decide_eq_true_eq] at hnot
    simp only [Box.delta] at hnot hother
    omega

theorem Searched.forward_some (hb : b.Trimmed old new) (h : Searched b c d front back)
    (hd : d < c) (hrun : searchForward old new b d back (diagonals d) front = (f', some p)) :
    b.Inside p := by
  have hN := hb.height_pos
  have hM := hb.width_pos
  rw [searchForward_eq_extend] at hrun
  obtain ⟨k, hk, hmeets, rfl⟩ :=
    extend_some h.sizedFront hd (fun k hk => mem_diagonals.1 hk) hrun
  simp only [meetsForward, Bool.and_eq_true, decide_eq_true_eq] at hmeets
  obtain ⟨⟨hodd, hnear⟩, -⟩ := hmeets
  have hentered := h.readyFront.entered (Int.le_of_lt hN) (Int.le_of_lt hM) hk
  have hnonneg := hentered.nonneg
  have hlong := hentered.long
  obtain _ | d := d
  · omega
  · have hfront : front.Fresh b.height b.width d := h.readyFront
    have hinside := hfront.enter_inside hN hM (.inl rfl) (h.apartFront hodd d rfl) hk
      (by simp only [Box.delta] at hnear; omega)
      (by simp only [Box.delta] at hodd; simp only [OnStep] at hk; omega)
    exact ⟨⟨hnonneg.1, hinside.1⟩, ⟨by omega, hinside.2.1⟩, by omega, hinside.2.2⟩

theorem Searched.backward_none (hb : b.Trimmed old new) (h : Searched b c d front back)
    (hd : d < c) {front' : Front} (hfront : front'.Fresh b.height b.width d)
    (hrun : searchBackward old new b d front' (diagonals d) back = (f', none)) :
    f'.Sized c ∧ f'.Fresh b.height b.width d ∧
      (b.delta % 2 = 0 → f'.Apart b.height b.width d d) := by
  rw [searchBackward_eq_extend] at hrun
  obtain ⟨hsized, -, hwritten⟩ :=
    extend_none h.sizedBack hd (fun k hk => mem_diagonals.1 hk) (nodup_diagonals d) hrun
  have hfresh : f'.Fresh b.height b.width d :=
    h.readyBack.fresh hb.runs_backward (by omega) (by omega)
      fun k hk => (hwritten k (mem_diagonals.2 hk)).1
  refine ⟨hsized, hfresh, ?_⟩
  intro heven k hk hlow hhigh
  have hnot := (hwritten k (mem_diagonals.2 hk)).2
  simp only [Box.delta] at heven
  simp only [OnStep] at hk
  have hother := hfront.nonneg (-(k - b.delta)) (by simp only [OnStep, Box.delta]; omega)
  rw [Bool.eq_false_iff] at hnot
  simp only [meetsBackward, ne_eq, Bool.and_eq_true, decide_eq_true_eq] at hnot
  simp only [Box.delta] at hnot hother
  omega

theorem Searched.backward_some (hb : b.Trimmed old new) (h : Searched b c d front back)
    (hd : d < c) {front' : Front} (hfront : front'.Fresh b.height b.width d)
    (hrun : searchBackward old new b d front' (diagonals d) back = (f', some p)) :
    b.Inside p := by
  have hN := hb.height_pos
  have hM := hb.width_pos
  rw [searchBackward_eq_extend] at hrun
  obtain ⟨k, hk, hmeets, rfl⟩ :=
    extend_some h.sizedBack hd (fun k hk => mem_diagonals.1 hk) hrun
  simp only [meetsBackward, Bool.and_eq_true, decide_eq_true_eq] at hmeets
  obtain ⟨⟨heven, hnear⟩, hmet⟩ := hmeets
  have hentered := h.readyBack.entered (Int.le_of_lt hN) (Int.le_of_lt hM) hk
  have hnonneg := hentered.nonneg
  have hlong := hentered.long
  have hwithin := hb.runs_backward.within (back.enter d k) (back.enter d k - k) hnonneg.1 (by omega)
  have hcorner := hb.runBackward_corner (x := back.enter d k) (y := back.enter d k - k) hnonneg.1
    (by omega)
  obtain _ | d := d
  · have hk0 := hk.eq_zero
    have hdelta : b.delta = 0 := by omega
    have hother := hfront.start rfl
    subst hk0
    rw [reach, hentered.start rfl, Int.sub_self, hb.runs_backward.start, hdelta] at hmet
    simp only [Int.sub_self, Int.neg_zero, hother] at hmet
    omega
  · have hback : back.Fresh b.height b.width d := h.readyBack
    have hinside := hback.enter_inside hN hM (.inr rfl) (h.apartBack heven d rfl) hk
      (by simp only [Box.delta] at hnear; omega)
      (by simp only [Box.delta] at heven; simp only [OnStep] at hk; omega)
    simp only [reach]
    generalize back.enter (d + 1 : Nat) k = x at *
    generalize runBackward old new b x (x - k) = run at *
    exact ⟨by simp only; omega, by simp only; omega, by simp only; omega⟩

/-- Wherever the two fronts meet, it is at a point of the problem other than its corners. -/
theorem Searched.middle_inside (hb : b.Trimmed old new) (n : Nat)
    (h : Searched b c d front back) (hd : d + n ≤ c)
    (hp : searchMiddle old new b (List.range' d n) front back = some p) : b.Inside p := by
  induction n generalizing d front back with
  | zero => cases hp
  | succ n ih =>
    rw [List.range'_succ, searchMiddle] at hp
    split at hp
    · next hforward =>
      cases hp
      exact h.forward_some hb (by omega) hforward
    · next front' hforward =>
      obtain ⟨hsized, hfront, hapart⟩ := h.forward_none hb (by omega) hforward
      split at hp
      · next hbackward =>
        cases hp
        exact h.backward_some hb (by omega) hfront hbackward
      · next back' hbackward =>
        obtain ⟨hsized', hback, hapart'⟩ := h.backward_none hb (by omega) hfront hbackward
        have hnext : Searched b c (d + 1) front' back' := by
          refine ⟨hsized, hsized', hfront, hback, ?_, ?_⟩
          · intro hodd e he
            cases he
            exact hapart hodd
          · intro heven e he
            cases he
            exact hapart' heven
        exact ih hnext (by omega) hp

theorem middle_inside (hb : b.Trimmed old new) {x y : Nat} (h : middle old new b = some (x, y)) :
    (b.old ≤ x ∧ x ≤ b.oldStop) ∧ (b.new ≤ y ∧ y ≤ b.newStop) ∧
      b.old + b.new < x + y ∧ x + y < b.oldStop + b.newStop := by
  simp only [middle, Option.map_eq_some_iff] at h
  obtain ⟨p, hp, hxy⟩ := h
  obtain ⟨rfl, rfl⟩ := Prod.mk.inj hxy
  have hsized := Front.sized_initial b.bound
  have hstart : Searched b (b.bound + 1) 0 (.initial b.bound) (.initial b.bound) := by
    refine ⟨hsized, hsized, Front.get_initial _ _, Front.get_initial _ _, ?_, ?_⟩
    · intro _ e he
      cases he
    · intro _ e he
      cases he
  rw [List.range_eq_range'] at hp
  obtain ⟨hold, hnew, hproper⟩ := hstart.middle_inside hb b.bound (by omega) hp
  have hlt := hb.old_lt
  have hlt' := hb.new_lt
  simp only [Box.height, Box.width] at hold hnew hproper
  omega

/-! ## Dividing the problem -/

/-- The step over a common end, if there is one. -/
def equalStep (i j n : Nat) : List Op := if 0 < n then [.equal i j n] else []

variable {K : Tag → Prop}

theorem SameRun.path {i j n : Nat} (h : SameRun old new i j n) :
    Path old new K i j (equalStep i j n) (i + n) (j + n) := by
  unfold equalStep
  split
  · next hn => exact .equal hn h (.nil _ _)
  · next hn =>
    rw [Nat.eq_zero_of_not_pos hn]
    exact .nil i j

/-- The difference of the items in a problem without common ends. -/
def divide (old new : Array α) (fuel : Nat) (b : Box) : List Op :=
  if b.height = 0 && b.width = 0 then []
  else if b.width = 0 then [.delete b.old b.height b.new]
  else if b.height = 0 then [.insert b.old b.new b.width]
  else
    match middle old new b with
    | some (x, y) =>
      conquer old new fuel { b with oldStop := x, newStop := y }
        ++ conquer old new fuel { b with old := x, new := y }
    | none => [.delete b.old b.height b.new, .insert b.old b.new b.width]

/-- Between its common ends a problem is divided. -/
theorem conquer_succ (old new : Array α) (fuel : Nat) (b : Box) :
    conquer old new (fuel + 1) b =
      let head := commonStart old new b.old b.new (min b.height b.width)
      let tail := commonEnd old new b.oldStop b.newStop
        (min (b.oldStop - (b.old + head)) (b.newStop - (b.new + head)))
      equalStep b.old b.new head
        ++ divide old new fuel ⟨b.old + head, b.oldStop - tail, b.new + head, b.newStop - tail⟩
        ++ equalStep (b.oldStop - tail) (b.newStop - tail) tail :=
  rfl

theorem divide_path (fuel : Nat) (hold : b.old ≤ b.oldStop) (hnew : b.new ≤ b.newStop)
    (htrimmed : b.height ≠ 0 → b.width ≠ 0 → b.Trimmed old new)
    (ih : ∀ b' : Box, b'.old ≤ b'.oldStop → b'.new ≤ b'.newStop →
      b'.height + b'.width < b.height + b.width →
      (∀ o ∈ conquer old new fuel b', K o.tag) →
      Path old new K b'.old b'.new (conquer old new fuel b') b'.oldStop b'.newStop)
    (hkinds : ∀ o ∈ divide old new fuel b, K o.tag) :
    Path old new K b.old b.new (divide old new fuel b) b.oldStop b.newStop := by
  have hheight : b.old + b.height = b.oldStop := Nat.add_sub_cancel' hold
  have hwidth : b.new + b.width = b.newStop := Nat.add_sub_cancel' hnew
  unfold divide at hkinds ⊢
  split
  · next hempty =>
    simp only [Bool.and_eq_true, decide_eq_true_eq] at hempty
    rw [← hheight, ← hwidth, hempty.1, hempty.2]
    exact .nil _ _
  · next hempty =>
    rw [if_neg hempty] at hkinds
    simp only [Bool.and_eq_true, decide_eq_true_eq, not_and] at hempty
    split
    · next hnone =>
      have hpos : 0 < b.height := Nat.pos_of_ne_zero fun h0 => hempty h0 hnone
      rw [if_pos hnone] at hkinds
      rw [← hheight, ← hwidth, hnone]
      exact .delete hpos (hkinds _ List.mem_cons_self) (.inr rfl) (.nil _ _)
    · next hsome =>
      rw [if_neg hsome] at hkinds
      split
      · next hnone =>
        rw [if_pos hnone] at hkinds
        rw [← hheight, ← hwidth, hnone]
        exact .insert (Nat.pos_of_ne_zero hsome) (hkinds _ List.mem_cons_self) (.inr rfl) (.nil _ _)
      · next hsome' =>
        rw [if_neg hsome'] at hkinds
        split
        · next x y hmiddle =>
          obtain ⟨hx, hy, hproper⟩ := middle_inside (htrimmed hsome' hsome) hmiddle
          rw [hmiddle] at hkinds
          refine (ih ⟨b.old, x, b.new, y⟩ hx.1 hy.1 ?_ ?_).append
            (ih ⟨x, b.oldStop, y, b.newStop⟩ hx.2 hy.2 ?_ ?_)
          · simp only [Box.height, Box.width] at hheight hwidth ⊢
            omega
          · exact fun o ho => hkinds o (List.mem_append_left _ ho)
          · simp only [Box.height, Box.width] at hheight hwidth ⊢
            omega
          · exact fun o ho => hkinds o (List.mem_append_right _ ho)
        · next hmiddle =>
          rw [hmiddle] at hkinds
          have hdelete : K .delete := hkinds _ List.mem_cons_self
          have hinsert : K .insert := hkinds _ (List.mem_cons_of_mem _ List.mem_cons_self)
          refine .delete (Nat.pos_of_ne_zero hsome') hdelete (.inr rfl)
            (.insert (Nat.pos_of_ne_zero hsome) hinsert (.inl hdelete) ?_)
          rw [hheight, hwidth]
          exact .nil _ _

/-- The difference that dividing a problem finds leads from its one corner to the other. -/
theorem conquer_path (old new : Array α) (fuel : Nat) (b : Box) (hold : b.old ≤ b.oldStop)
    (hnew : b.new ≤ b.newStop) (hfuel : b.height + b.width < fuel)
    (hkinds : ∀ o ∈ conquer old new fuel b, K o.tag) :
    Path old new K b.old b.new (conquer old new fuel b) b.oldStop b.newStop := by
  induction fuel generalizing b with
  | zero => exact absurd hfuel (Nat.not_lt_zero _)
  | succ fuel ih =>
    obtain ⟨i, i', j, j'⟩ := b
    rw [conquer_succ] at hkinds ⊢
    simp only [Box.height, Box.width] at hold hnew hfuel hkinds ⊢
    have hheadLe := Nat.le_min.1 (commonStart_le (a := old) (b := new) i j (min (i' - i) (j' - j)))
    have hhead := sameRun_commonStart (a := old) (b := new) i j (min (i' - i) (j' - j))
    have hheadStop := sameAt_commonStart (a := old) (b := new) (i := i) (j := j)
      (n := min (i' - i) (j' - j))
    generalize commonStart old new i j (min (i' - i) (j' - j)) = head at *
    rw [Nat.lt_min] at hheadStop
    generalize hroom : min (i' - (i + head)) (j' - (j + head)) = room at *
    obtain ⟨htailRoom, htailOld, htailNew⟩ := commonEnd_le (a := old) (b := new) i' j' room
    have htail := sameRun_commonEnd (a := old) (b := new) i' j' room
    have htailStop := sameAt_commonEnd (a := old) (b := new) (i := i') (j := j') (n := room)
    generalize commonEnd old new i' j' room = tail at *
    rw [← hroom, Nat.lt_min] at htailStop
    rw [← hroom, Nat.le_min] at htailRoom
    have hheight : i + head + tail ≤ i' := by omega
    have hwidth : j + head + tail ≤ j' := by omega
    have hlast := htail.path (K := K)
    rw [Nat.sub_add_cancel htailOld, Nat.sub_add_cancel htailNew] at hlast
    clear hheadLe htailRoom htailOld htailNew hroom
    refine (hhead.path.append ?_).append hlast
    refine divide_path (b := ⟨i + head, i' - tail, j + head, j' - tail⟩) fuel
      (Nat.le_sub_of_add_le hheight) (Nat.le_sub_of_add_le hwidth) ?_ ?_ ?_
    · intro hheight' hwidth'
      simp only [Box.height, Box.width] at hheight' hwidth'
      refine ⟨?_, ?_, hheadStop ⟨by omega, by omega⟩,
        htailStop ⟨by omega, by omega⟩ (by omega) (by omega)⟩
      · exact Nat.lt_of_sub_ne_zero hheight'
      · exact Nat.lt_of_sub_ne_zero hwidth'
    · intro b' hold' hnew' hlt
      refine ih b' hold' hnew' (Nat.lt_of_lt_of_le hlt ?_)
      simp only [Box.height, Box.width]
      omega
    · exact fun o ho => hkinds o (List.mem_append_left _ (List.mem_append_right _ ho))

/-- A difference leads from the start of both sequences to their ends. Its steps have lost their
places on the other side only if it has both deletions and insertions. -/
theorem diff_path (old new : Array α) :
    Path old new (· ∈ (diff old new).map (·.tag)) 0 0 (diff old new) old.size new.size := by
  have hconquer := conquer_path old new (old.size + new.size + 1) ⟨0, old.size, 0, new.size⟩
    (Nat.zero_le _) (Nat.zero_le _) (Nat.lt_succ_self _) fun o ho => List.mem_map_of_mem ho
  obtain ⟨hpath, hfull⟩ := hconquer.tidy fun t _ ht => ht
  exact hpath.mono (hfull .delete (by decide)) (hfull .insert (by decide))

/-! ## Equal sequences -/

theorem commonStart_self [ReflBEq α] {a : Array α} {i n : Nat} (h : i + n ≤ a.size) :
    commonStart a a i i n = n := by
  induction n generalizing i with
  | zero => rfl
  | succ n ih =>
    have hi : i < a.size := by omega
    rw [commonStart, if_pos, ih (by omega)]
    simp [sameAt, hi]

theorem tidyTag_of_forall_ne {tag : Tag} {ops : List Op} (h : ∀ o ∈ ops, o.tag ≠ tag)
    (fuel i : Nat) : tidyTag old new tag fuel ops i = ops := by
  induction fuel generalizing i with
  | zero => rfl
  | succ fuel ih =>
    rw [tidyTag]
    split
    · rfl
    · next o ho =>
      rw [if_neg (h o (List.mem_of_getElem? ho))]
      exact ih (i + 1)

/-- The difference of equal sequences has at most the one step over all of them. -/
theorem diff_self [ReflBEq α] (a : Array α) : diff a a = equalStep 0 0 a.size := by
  have hconquer : conquer a a (a.size + a.size + 1) ⟨0, a.size, 0, a.size⟩
      = equalStep 0 0 a.size := by
    rw [conquer_succ]
    simp only [Box.height, Box.width, Nat.sub_zero, Nat.min_self, Nat.zero_add, Nat.sub_self,
      commonStart_self (show 0 + a.size ≤ a.size by omega)]
    simp [commonEnd, divide, Box.height, Box.width, equalStep]
  have hequal : ∀ tag, tag ≠ .equal → ∀ o ∈ equalStep 0 0 a.size, o.tag ≠ tag := by
    intro tag htag o ho
    unfold equalStep at ho
    split at ho
    · obtain rfl := List.mem_singleton.1 ho
      exact htag.symm
    · cases ho
  rw [diff, hconquer, tidy, tidyTag_of_forall_ne (hequal .delete (by decide)),
    tidyTag_of_forall_ne (hequal .insert (by decide))]

end

end DefectScan.Patch
