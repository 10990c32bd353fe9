import DefectScan.Text.Lines

/-!
# Lines of joined texts

`split` cuts at every line feed, so the lines of joined pieces are the lines of the pieces one
behind the other (`split_join`), and a piece without a line feed is a line of its own
(`split_join_append`). Splitting the pieces first changes nothing (`join_append_flatMap_split`).
-/

namespace DefectScan.Text.Lines

/-- The first line grows and the others stay. -/
theorem split_cons_of_ne {c : Char} (hc : c ≠ '\n') {cs l : List Char} {ls : List (List Char)}
    (h : split cs = l :: ls) : split (c :: cs) = (c :: l) :: ls := by
  simp only [split, if_neg hc, h]

theorem split_of_not_mem (l : List Char) (h : '\n' ∉ l) : split l = [l] := by
  induction l with
  | nil => rfl
  | cons c cs ih =>
    simp only [List.mem_cons, not_or] at h
    exact split_cons_of_ne (Ne.symm h.1) (ih h.2)

theorem not_mem_of_mem_split {text l : List Char} (h : l ∈ split text) : '\n' ∉ l := by
  induction text generalizing l with
  | nil =>
    simp only [split, List.mem_singleton] at h
    simp [h]
  | cons c cs ih =>
    by_cases hc : c = '\n'
    · simp only [split, if_pos hc, List.mem_cons] at h
      rcases h with rfl | h
      · simp
      · exact ih h
    · obtain ⟨m, ms, hm⟩ := List.exists_cons_of_ne_nil (split_ne_nil cs)
      rw [split_cons_of_ne hc hm] at h
      rw [hm] at ih
      rcases List.mem_cons.mp h with rfl | h
      · have := ih List.mem_cons_self
        simp [this, Ne.symm hc]
      · exact ih (List.mem_cons_of_mem _ h)

/-- There is one line more than there are line feeds. -/
theorem count_eq (text : List Char) : count text = text.count '\n' + 1 := by
  unfold count
  induction text with
  | nil => rfl
  | cons c cs ih =>
    by_cases hc : c = '\n'
    · subst hc
      rw [List.count_cons_self, ← ih]
      rfl
    · obtain ⟨m, ms, hm⟩ := List.exists_cons_of_ne_nil (split_ne_nil cs)
      rw [split_cons_of_ne hc hm, List.count_cons_of_ne hc, ← ih, hm]
      rfl

/-- The lines of two texts with a line feed between them. -/
theorem split_append_newline (a b : List Char) : split (a ++ '\n' :: b) = split a ++ split b := by
  induction a with
  | nil => simp [split]
  | cons c cs ih =>
    by_cases hc : c = '\n'
    · simp [split, hc, ih]
    · obtain ⟨m, ms, hm⟩ := List.exists_cons_of_ne_nil (split_ne_nil cs)
      rw [hm] at ih
      rw [List.cons_append, split_cons_of_ne hc ih, split_cons_of_ne hc hm]
      rfl

theorem join_cons {ls : List (List Char)} (h : ls ≠ []) (l : List Char) :
    join (l :: ls) = l ++ '\n' :: join ls := by
  obtain ⟨m, ms, rfl⟩ := List.exists_cons_of_ne_nil h
  rfl

theorem split_join {ls : List (List Char)} (h : ls ≠ []) : split (join ls) = ls.flatMap split := by
  induction ls with
  | nil => exact absurd rfl h
  | cons l ls ih =>
    by_cases hls : ls = []
    · subst hls
      simp [join]
    · rw [join_cons hls, split_append_newline, ih hls, List.flatMap_cons]

theorem join_append {ls : List (List Char)} (h : ls ≠ []) (pre : List (List Char)) :
    join (pre ++ ls) = join (pre ++ [join ls]) := by
  induction pre with
  | nil => rfl
  | cons l pre ih =>
    rw [List.cons_append, List.cons_append, join_cons (by simp [h]), join_cons (by simp), ih]

theorem flatMap_split_ne_nil {ls : List (List Char)} (h : ls ≠ []) : ls.flatMap split ≠ [] := by
  obtain ⟨l, ls, rfl⟩ := List.exists_cons_of_ne_nil h
  simp [split_ne_nil]

theorem join_append_flatMap_split (pre post : List (List Char)) :
    join (pre ++ post.flatMap split) = join (pre ++ post) := by
  by_cases h : post = []
  · subst h
    rfl
  · rw [join_append h, join_append (flatMap_split_ne_nil h), ← split_join h, join_split]

theorem flatMap_split_of_not_mem {ls : List (List Char)} (h : ∀ l ∈ ls, '\n' ∉ l) :
    ls.flatMap split = ls := by
  induction ls with
  | nil => rfl
  | cons l ls ih =>
    rw [List.flatMap_cons, split_of_not_mem l (h l List.mem_cons_self),
      ih fun m hm => h m (List.mem_cons_of_mem _ hm)]
    rfl

/-- Lines in front of pieces that may hold line feeds are still the first lines of the joined
text. -/
theorem split_join_append (pre post : List (List Char)) (h : ∀ l ∈ pre, '\n' ∉ l)
    (hne : pre ++ post ≠ []) : split (join (pre ++ post)) = pre ++ post.flatMap split := by
  rw [split_join hne, List.flatMap_append, flatMap_split_of_not_mem h]

end DefectScan.Text.Lines
