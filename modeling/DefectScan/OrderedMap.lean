/-!
# Ordered maps

Entries with different keys, in the order of their keys.
-/

namespace DefectScan

/-- Of two different keys one comes first. -/
class OrderedKey (κ : Type) [LT κ] : Prop where
  irrefl : ∀ a : κ, ¬ a < a
  trans : ∀ {a b c : κ}, a < b → b < c → a < c
  lt_of_not_lt : ∀ {a b : κ}, ¬ a < b → a ≠ b → b < a

instance : OrderedKey Int where
  irrefl := Int.lt_irrefl
  trans := Int.lt_trans
  lt_of_not_lt := fun hnot hne => Int.lt_iff_le_and_ne.mpr ⟨Int.not_lt.mp hnot, Ne.symm hne⟩

instance : OrderedKey String where
  irrefl := String.lt_irrefl
  trans := String.lt_trans
  lt_of_not_lt := fun hnot hne =>
    String.not_le.mp fun hle => hne (String.le_antisymm hle (String.not_lt.mp hnot))

structure OrderedMap (κ ν : Type) [LT κ] where
  entries : List (κ × ν)
  ascending : entries.Pairwise fun a b => a.1 < b.1

namespace OrderedMap

variable {κ ν : Type} [LT κ]

def empty : OrderedMap κ ν := ⟨[], .nil⟩

variable [DecidableEq κ]

def get? (m : OrderedMap κ ν) (k : κ) : Option ν := (m.entries.find? (·.1 = k)).map (·.2)

theorem mem_entries [OrderedKey κ] (m : OrderedMap κ ν) (e : κ × ν) :
    e ∈ m.entries ↔ m.get? e.1 = some e.2 := by
  rw [get?, Option.map_eq_some_iff]
  constructor
  · intro he
    obtain ⟨before, after, hsplit⟩ := List.append_of_mem he
    refine ⟨e, List.find?_eq_some_iff_append.mpr ⟨by simp, before, after, hsplit, ?_⟩, rfl⟩
    intro e' he'
    have hlt := m.ascending
    rw [hsplit, List.pairwise_append] at hlt
    have hlt := hlt.2.2 e' he' e List.mem_cons_self
    have hne : e'.1 ≠ e.1 := fun heq => OrderedKey.irrefl e.1 (heq ▸ hlt)
    simp [hne]
  · rintro ⟨e', hfind, hvalue⟩
    have hkey : e'.1 = e.1 := by simpa using List.find?_some hfind
    rw [← Prod.ext hkey hvalue]
    exact List.mem_of_find?_eq_some hfind

variable [DecidableLT κ] {k : κ} {start : ν} {f : ν → ν} {entries : List (κ × ν)}

/-- Entries with that of a key changed, or put in its place where there was none. -/
def updated (k : κ) (start : ν) (f : ν → ν) : List (κ × ν) → List (κ × ν)
  | [] => [(k, f start)]
  | (a, x) :: rest =>
    if k = a then (a, f x) :: rest
    else if k < a then (k, f start) :: (a, x) :: rest
    else (a, x) :: updated k start f rest

theorem fst_of_mem_updated {e : κ × ν} (h : e ∈ updated k start f entries) :
    e.1 = k ∨ ∃ e' ∈ entries, e.1 = e'.1 := by
  fun_induction updated k start f entries with
  | case1 => exact Or.inl (by rw [List.mem_singleton.mp h])
  | case2 x rest =>
    rcases List.mem_cons.mp h with rfl | h
    · exact Or.inl rfl
    · exact Or.inr ⟨e, List.mem_cons_of_mem _ h, rfl⟩
  | case3 a x rest =>
    rcases List.mem_cons.mp h with rfl | h
    · exact Or.inl rfl
    · exact Or.inr ⟨e, h, rfl⟩
  | case4 a x rest _ _ ih =>
    rcases List.mem_cons.mp h with rfl | h
    · exact Or.inr ⟨_, List.mem_cons_self, rfl⟩
    · refine (ih h).imp_right ?_
      rintro ⟨e', he', heq⟩
      exact ⟨e', List.mem_cons_of_mem _ he', heq⟩

theorem find?_updated_of_ne {k' : κ} (hne : k' ≠ k) :
    (updated k start f entries).find? (·.1 = k') = entries.find? (·.1 = k') := by
  fun_induction updated k start f entries with
  | case1 => simp [hne.symm]
  | case2 x rest => simp [hne.symm]
  | case3 a x rest _ _ => simp [hne.symm]
  | case4 a x rest _ _ ih => rw [List.find?_cons, List.find?_cons, ih]

variable [OrderedKey κ]

theorem ascending_updated (h : entries.Pairwise fun a b => a.1 < b.1) :
    (updated k start f entries).Pairwise fun a b => a.1 < b.1 := by
  fun_induction updated k start f entries with
  | case1 => exact List.pairwise_singleton _ _
  | case2 x rest => exact List.pairwise_cons.mpr (List.pairwise_cons.mp h)
  | case3 a x rest _ hlt =>
    refine List.pairwise_cons.mpr ⟨fun e he => ?_, h⟩
    rcases List.mem_cons.mp he with rfl | he
    · exact hlt
    · exact OrderedKey.trans hlt ((List.pairwise_cons.mp h).1 e he)
  | case4 a x rest hne hnlt ih =>
    obtain ⟨hfirst, hrest⟩ := List.pairwise_cons.mp h
    refine List.pairwise_cons.mpr ⟨fun e he => ?_, ih hrest⟩
    rcases fst_of_mem_updated he with heq | ⟨e', he', heq⟩
    · rw [heq]
      exact OrderedKey.lt_of_not_lt hnlt hne
    · rw [heq]
      exact hfirst e' he'

/-- The entry of a key is changed, and what it is where there is none is changed too. -/
def update (m : OrderedMap κ ν) (k : κ) (start : ν) (f : ν → ν) : OrderedMap κ ν :=
  ⟨updated k start f m.entries, ascending_updated m.ascending⟩

theorem find?_updated_self (h : entries.Pairwise fun a b => a.1 < b.1) :
    ((updated k start f entries).find? (·.1 = k)).map (·.2)
      = some (f (((entries.find? (·.1 = k)).map (·.2)).getD start)) := by
  fun_induction updated k start f entries with
  | case1 => simp
  | case2 x rest => simp
  | case3 a x rest hne hlt =>
    -- the key comes before all there are
    have hnone : ((a, x) :: rest).find? (·.1 = k) = none := by
      rw [List.find?_eq_none]
      intro e he heq
      rw [decide_eq_true_eq] at heq
      rcases List.mem_cons.mp he with rfl | he
      · exact hne heq.symm
      · have hlast := (List.pairwise_cons.mp h).1 e he
        rw [heq] at hlast
        exact OrderedKey.irrefl k (OrderedKey.trans hlt hlast)
    simp [hnone]
  | case4 a x rest hne hnlt ih =>
    have hother : ¬ a = k := fun heq => hne heq.symm
    simpa [hother] using ih (List.pairwise_cons.mp h).2

theorem get?_update (m : OrderedMap κ ν) (k : κ) (start : ν) (f : ν → ν) (k' : κ) :
    (m.update k start f).get? k' = if k' = k then some (f ((m.get? k).getD start)) else m.get? k' := by
  by_cases hk : k' = k
  · subst hk
    rw [if_pos rfl]
    exact find?_updated_self m.ascending
  · rw [if_neg hk, get?, get?, update, find?_updated_of_ne hk]

end OrderedMap

end DefectScan
