/-!
# Tables

Rows with their numbers. A row that is added gets the number behind the last one that was ever given
out, so the rows of a table are in the order of their numbers, and no number is given out twice. The
numbers of rows that are there may have gaps.
-/

namespace DefectScan.Store

/-- Rows in the order of their numbers, none of them above the last one that was given out. -/
structure Table.Ordered {α : Type} (rows : List (Int × α)) (last : Int) : Prop where
  nonneg : 0 ≤ last
  ascending : rows.Pairwise fun a b => a.1 < b.1
  le_last : ∀ row ∈ rows, row.1 ≤ last

structure Table (α : Type) where
  rows : List (Int × α)
  /-- The last number that was given out. -/
  last : Int
  ordered : Table.Ordered rows last

namespace Table

variable {α β : Type}

theorem ordered_iff {rows : List (Int × α)} {last : Int} : Ordered rows last ↔
    0 ≤ last ∧ (rows.Pairwise fun a b => a.1 < b.1) ∧ ∀ row ∈ rows, row.1 ≤ last :=
  Iff.intro (fun h => ⟨h.nonneg, h.ascending, h.le_last⟩) fun h => ⟨h.1, h.2.1, h.2.2⟩

instance (rows : List (Int × α)) (last : Int) : Decidable (Ordered rows last) :=
  decidable_of_iff _ ordered_iff.symm

theorem ordered_nil : Ordered ([] : List (Int × α)) 0 where
  nonneg := Int.le_refl 0
  ascending := .nil
  le_last := fun _ h => absurd h List.not_mem_nil

def empty : Table α := ⟨[], 0, ordered_nil⟩

def length (t : Table α) : Nat := t.rows.length

/-- Whether there is a row with a number. -/
def has (t : Table α) (id : Int) : Bool := t.rows.any (·.1 = id)

theorem ordered_insert (t : Table α) (x : α) :
    Ordered (t.rows ++ [(t.last + 1, x)]) (t.last + 1) where
  nonneg := by
    have := t.ordered.nonneg
    omega
  ascending := by
    refine List.pairwise_append.mpr ⟨t.ordered.ascending, List.pairwise_singleton _ _, ?_⟩
    intro a ha b hb
    rw [List.mem_singleton.mp hb]
    exact Int.lt_add_one_of_le (t.ordered.le_last a ha)
  le_last := by
    intro row hrow
    rcases List.mem_append.mp hrow with h | h
    · exact Int.le_of_lt (Int.lt_add_one_of_le (t.ordered.le_last row h))
    · exact Int.le_of_eq (congrArg Prod.fst (List.mem_singleton.mp h))

/-- Adds a row and gives its number. -/
def insert (t : Table α) (x : α) : Table α × Int :=
  (⟨t.rows ++ [(t.last + 1, x)], t.last + 1, t.ordered_insert x⟩, t.last + 1)

/-- The table of some rows, if they can be one. -/
def ofRows? (rows : List (Int × α)) (last : Int) : Option (Table α) :=
  if h : Ordered rows last then some ⟨rows, last, h⟩ else none

/-! ## Joins -/

/-- A row with each of the rows that match it, or alone if none does. -/
def withMatches (right : List β) (on : α → β → Bool) (a : α) : List (α × Option β) :=
  match right.filter (on a) with
  | [] => [(a, none)]
  | bs => bs.map fun b => (a, some b)

theorem withMatches_of_nil {right : List β} {on : α → β → Bool} {a : α}
    (h : right.filter (on a) = []) : withMatches right on a = [(a, none)] := by
  unfold withMatches
  rw [h]

theorem withMatches_of_cons {right bs : List β} {on : α → β → Bool} {a : α} {b : β}
    (h : right.filter (on a) = b :: bs) :
    withMatches right on a = (b :: bs).map fun b => (a, some b) := by
  unfold withMatches
  rw [h]

/-- Every row on the left with the rows on the right that match it. -/
def leftJoin (left : List α) (right : List β) (on : α → β → Bool) : List (α × Option β) :=
  left.flatMap (withMatches right on)

theorem fst_of_mem_withMatches {right : List β} {on : α → β → Bool} {a : α} {row : α × Option β}
    (h : row ∈ withMatches right on a) : row.1 = a := by
  unfold withMatches at h
  split at h
  · rw [List.mem_singleton.mp h]
  · obtain ⟨b, -, rfl⟩ := List.mem_map.mp h
    rfl

/-- What is chosen on the left can be chosen before or behind a join. -/
theorem filter_leftJoin (left : List α) (right : List β) (on : α → β → Bool) (p : α → Bool) :
    (leftJoin left right on).filter (fun row => p row.1) = leftJoin (left.filter p) right on := by
  induction left with
  | nil => rfl
  | cons a left ih =>
    simp only [leftJoin, List.flatMap_cons, List.filter_append] at ih ⊢
    rw [ih, List.filter_cons]
    cases hp : p a with
    | true =>
      rw [if_pos rfl, List.flatMap_cons, List.filter_eq_self.mpr]
      intro row hrow
      rw [fst_of_mem_withMatches hrow, hp]
    | false =>
      rw [if_neg Bool.false_ne_true, List.filter_eq_nil_iff.mpr, List.nil_append]
      intro row hrow
      rw [fst_of_mem_withMatches hrow, hp]
      exact Bool.false_ne_true

end Table

end DefectScan.Store
