import DefectScan.Proofs.Reanalysis

/-!
# Releases behind an allocation

A release is put behind the line of a reported allocation. The detector looks for it between the end
of the statement and the end of the block, so it is found there if the statement ends on its line and
the block does not. An allocation has one semicolon, at its end. So a text is read statement by
statement, and in each of them at most one allocation is found:

    afters behind (statement ++ ';' :: rest) = [rest] ++ afters [] rest, or afters [] rest

The new line ends the statement that it stands in. That makes an allocation of a call that was left
open at the end of the line (`LeftOpen`), and it does so where none was found before.
-/

namespace DefectScan

open Text Pattern

namespace Lexical

/-! ## Statements -/

/-- Nothing is released before the block ends. -/
def unreleased (after : List Char) : Bool := !holds "free".toList (after.takeWhile (· ≠ '\x7d'))

/-- The number of allocations that are reported in a text. -/
def leaks (behind text : List Char) : Nat := (allocation.afters behind text).countP unreleased

theorem allocationRule_mem : ⟨.memoryLeak, allocation, isReleased⟩ ∈ rules := by simp [rules]

theorem length_linesOf_memoryLeak (text : String) :
    (linesOf .memoryLeak text).length = leaks [] text.toList := by
  rw [linesOf_eq allocationRule_mem, List.length_map, leaks, afters, List.countP_map, List.countP_eq_length_filter]
  rfl

/-- No allocation runs over a semicolon. -/
theorem uncrossed_semicolon (a b : List Char) : Uncrossed AllocationText (a ++ [';']) b := by
  intro front z beyond rest captured hfront hz hover _ hm
  obtain ⟨t, ht, hsemi⟩ := hm.last
  obtain ⟨u, rfl, -⟩ := exists_of_concat_eq hfront hz
  obtain ⟨v, -, rfl⟩ := exists_of_concat_eq ht.symm hover
  exact hsemi (by simp)

/-- What is found behind a semicolon does not depend on what stands before it. -/
theorem afters_semicolon (behind a b : List Char) :
    allocation.afters behind (a ++ ';' :: b)
      = (allocation.afters behind (a ++ [';'])).map (· ++ b) ++ allocation.afters [] b := by
  have happend := allocation_spells.afters_append (uncrossed_semicolon a b) behind
  rw [List.append_assoc, List.singleton_append] at happend
  rw [happend]
  congr 1
  apply allocation_spells.afters_congr
  rw [List.reverse_append]
  exact (by decide : isWord ';' = false)

theorem afters_of_no_semicolon {text : List Char} (h : ';' ∉ text) (behind : List Char) :
    allocation.afters behind text = [] := by
  rw [afters, List.map_eq_nil_iff,
    occurrencesFrom_eq_nil_iff allocation_spells.lawful allocation_spells.consuming]
  intro pre post hsplit
  cases hread : allocation.readAt (pre.reverse ++ behind) post with
  | none => rfl
  | some hit =>
    obtain ⟨-, m, hm, rfl⟩ := allocation_spells.readAt_iff.mp hread
    obtain ⟨t, rfl, -⟩ := hm.last
    exact absurd (by rw [hsplit]; simp) h

/-- In a statement at most one allocation is found, and it ends with the statement. -/
theorem afters_statement {s : List Char} (h : ';' ∉ s) (behind : List Char) :
    allocation.afters behind (s ++ [';']) = [] ∨ allocation.afters behind (s ++ [';']) = [[]] := by
  induction s generalizing behind with
  | nil =>
    left
    rw [List.nil_append, afters_of_readAt_none (readAt_of_read_none rfl behind), afters_nil]
  | cons c s ih =>
    cases hread : allocation.readAt behind (c :: s ++ [';']) with
    | none =>
      rw [List.cons_append] at hread ⊢
      rw [afters_of_readAt_none hread]
      exact ih (fun hmem => h (List.mem_cons_of_mem c hmem)) (c :: behind)
    | some hit =>
      obtain ⟨-, m, hm, heq⟩ := allocation_spells.readAt_iff.mp hread
      obtain ⟨t, rfl, ht⟩ := hm.last
      rw [List.append_assoc, List.singleton_append] at heq
      obtain ⟨rfl, hrest⟩ := eq_of_append_cons h ht heq
      right
      have hend : allocation.readAt behind (c :: s ++ [';'] ++ []) = some ⟨hit.captured, []⟩ := by
        rw [List.append_nil, hread, hrest]
      have hafters := afters_of_readAt (by simp) hend
      rwa [afters_nil, List.append_nil] at hafters

/-- A text is cut behind its last semicolon. -/
theorem exists_last_semicolon (text : List Char) :
    ∃ a s, text = a ++ s ∧ ';' ∉ s ∧ (a = [] ∨ ∃ t, a = t ++ [';']) := by
  by_cases h : ';' ∈ text.reverse
  · obtain ⟨u, v, hrev, hu⟩ := List.eq_append_cons_of_mem h
    refine ⟨v.reverse ++ [';'], u.reverse, ?_, by simpa using hu, Or.inr ⟨_, rfl⟩⟩
    rw [← List.reverse_reverse text, hrev]
    simp
  · exact ⟨[], text, rfl, by simpa using h, Or.inl rfl⟩

theorem wordBehind_statements {a : List Char} (ha : a = [] ∨ ∃ t, a = t ++ [';']) :
    wordBehind a.reverse = wordBehind [] := by
  rcases ha with rfl | ⟨t, rfl⟩
  · rfl
  · rw [List.reverse_append]
    exact (by decide : isWord ';' = false)

/-- The allocations of whole statements and of what follows them. -/
theorem afters_statements {a : List Char} (ha : a = [] ∨ ∃ t, a = t ++ [';']) (b : List Char) :
    allocation.afters [] (a ++ b)
      = (allocation.afters [] a).map (· ++ b) ++ allocation.afters [] b := by
  rcases ha with rfl | ⟨t, rfl⟩
  · simp
  · rw [List.append_assoc, List.singleton_append, afters_semicolon]

/-! ## What follows a line -/

theorem afters_newline_eq_nil {a t : List Char} (h : allocation.afters [] (a ++ '\n' :: t) = []) :
    allocation.afters [] ('\n' :: t) = [] := by
  simp only [afters, List.map_eq_nil_iff,
    occurrencesFrom_eq_nil_iff allocation_spells.lawful allocation_spells.consuming]
    at h ⊢
  intro pre post hsplit
  cases pre with
  | nil =>
    cases hsplit
    exact readAt_of_read_none rfl _
  | cons c pre =>
    have hnone := h (a ++ c :: pre) post (by rw [hsplit]; simp)
    rw [← hnone]
    apply allocation.readAt_congr
    rw [List.reverse_append, List.append_assoc, wordBehind_append (by simp),
      wordBehind_append (by simp)]

/-- The allocations that are found behind a line are found behind it with the statement that the line
leaves open. -/
theorem leaks_back_le {s back : List Char} (hs : ';' ∉ s) (hback : back = [] ∨ ∃ t, back = '\n' :: t) :
    leaks [] back ≤ leaks [] (s ++ back) := by
  by_cases hsemi : ';' ∈ back
  · obtain ⟨u, rest, rfl, hu⟩ := List.eq_append_cons_of_mem hsemi
    have hstatement : ';' ∉ s ++ u := by simp [hs, hu]
    obtain ⟨v, rfl⟩ : ∃ v, u = '\n' :: v := by
      rcases hback with hnil | ⟨t, ht⟩
      · simp at hnil
      · cases u with
        | nil => cases ht
        | cons c v => exact ⟨v, by rw [(List.cons.inj ht).1]⟩
    rw [leaks, leaks, ← List.append_assoc, afters_semicolon, afters_semicolon [] (s ++ '\n' :: v)]
    simp only [List.countP_append]
    apply Nat.add_le_add_right
    rcases afters_statement hu [] with hnone | hone
    · rw [hnone]
      exact Nat.zero_le _
    · rcases afters_statement hstatement [] with hnone' | hone'
      · rw [List.append_assoc, List.cons_append] at hnone'
        rw [List.cons_append, afters_newline_eq_nil hnone'] at hone
        cases hone
      · rw [hone, hone']
  · rw [leaks, afters_of_no_semicolon hsemi]
    exact Nat.zero_le _

/-! ## Releases -/

theorem holds_append (front part back : List Char) : holds part (front ++ (part ++ back)) = true := by
  induction front with
  | nil =>
    cases part with
    | nil => cases back <;> simp [holds]
    | cons c part => simp [holds]
  | cons c front ih => simp [holds, ih]

/-- Nothing behind the end of the block counts. -/
theorem unreleased_of_close {t : List Char} (h : '\x7d' ∈ t) (rest rest' : List Char) :
    unreleased (t ++ rest) = unreleased (t ++ rest') := by
  obtain ⟨a, b, rfl, ha⟩ := List.eq_append_cons_of_mem h
  have hrun : ∀ c ∈ a, decide (c ≠ '\x7d') = true :=
    fun c hc => decide_eq_true fun heq => ha (heq ▸ hc)
  have htake : ∀ r, (a ++ '\x7d' :: b ++ r).takeWhile (· ≠ '\x7d') = a := by
    intro r
    rw [List.append_assoc, List.cons_append]
    exact (span_eq hrun (by decide) (b ++ r)).1
  rw [unreleased, unreleased, htake, htake]

/-- A release before the end of the block counts. -/
theorem unreleased_of_free {t : List Char} (h : '\x7d' ∉ t) (rest : List Char) :
    unreleased (t ++ ("free".toList ++ rest)) = false := by
  have hrun : ∀ c ∈ t ++ "free".toList, decide (c ≠ '\x7d') = true := by
    intro c hc
    apply decide_eq_true
    rintro rfl
    rcases List.mem_append.mp hc with hc | hc
    · exact h hc
    · exact absurd hc (by decide)
  rw [unreleased, ← List.append_assoc, List.takeWhile_append_of_pos hrun, List.append_assoc,
    holds_append]
  rfl

end Lexical

namespace Proposal

open Lexical Patch Text.Lines

/-! ## The line that is added -/

/-- A release, up to its semicolon. -/
def releaseUpTo (line x : List Char) : List Char :=
  indentation line ++ ("free(".toList ++ (x ++ [')']))

theorem exists_of_release {line : List Char} {c : Change} (h : release line = some c) :
    ∃ o x, assignedAllocation.first? line = some o ∧ o.captured = [x] ∧ AllWord x ∧
      c.text = releaseUpTo line x ++ [';'] ∧ c.edit = .insertAfter := by
  obtain ⟨o, ho, rfl⟩ := Option.map_eq_some_iff.mp h
  obtain ⟨-, hread, -⟩ :=
    leftmost_of_first? assignedAllocation_lawful assignedAllocation_consuming ho
  obtain ⟨x, -, -, hx, -, hcaptured, -⟩ := exists_of_assignedAllocation (read_of_readAt hread)
  have hname : captured o 0 = x := congrArg (·.getD 0 []) hcaptured
  refine ⟨o, x, ho, hcaptured, hx, ?_, rfl⟩
  simp only [hname, releaseUpTo]
  simp

/-- At the end of a text a call that allocates is open, and its statement has not ended. -/
def LeftOpen (text : List Char) : Prop :=
  ∃ pre w inside, text = pre ++ ("malloc".toList ++ (w ++ '(' :: inside)) ∧ WordStart pre ∧
    AllBlank w ∧ ';' ∉ inside

section
variable {line x : List Char} (hx : AllWord x)

include hx

theorem not_mem_releaseUpTo : ';' ∉ releaseUpTo line x := by
  simp only [releaseUpTo, List.mem_append, not_or]
  exact ⟨not_mem_indentation (by decide) (by decide) line, by decide,
    not_mem_of_allWord hx (by decide), by decide⟩

/-- The new line has one open parenthesis. -/
theorem eq_of_release {r inside : List Char}
    (h : '\n' :: releaseUpTo line x = r ++ '(' :: inside) :
    r = '\n' :: (indentation line ++ "free".toList) := by
  have hnone : '(' ∉ indentation line := not_mem_indentation (by decide) (by decide) line
  have hword : '(' ∉ x := not_mem_of_allWord hx (by decide)
  have hparts : '\n' :: releaseUpTo line x
      = '\n' :: (indentation line ++ "free".toList) ++ '(' :: (x ++ [')']) := by
    simp [releaseUpTo]
  rw [hparts] at h
  have hcount := congrArg (List.count '(') h
  simp [List.count_eq_zero.mpr hnone, List.count_eq_zero.mpr hword] at hcount
  have hr : '(' ∉ r := List.count_eq_zero.mp (by omega)
  exact (eq_of_append_cons hr (by simp [hnone]) h.symm).1

omit hx in
/-- The name before it does not allocate. -/
theorem malloc_ne_free {q w s : List Char} (hw : AllBlank w) :
    q ++ ("malloc".toList ++ w) ≠ s ++ '\n' :: (indentation line ++ "free".toList) := by
  intro h
  have hsplit : s ++ '\n' :: (indentation line ++ "free".toList)
      = (s ++ '\n' :: (indentation line ++ "fre".toList)) ++ ['e'] := by simp
  rw [hsplit] at h
  obtain ⟨u, hu, -⟩ := exists_of_concat_eq h.symm (by simp)
  rcases List.eq_nil_or_concat w with rfl | ⟨v, d, rfl⟩
  · exact absurd (congrArg List.getLast? hu) (by simp)
  · rw [List.concat_eq_append, ← List.append_assoc] at hu
    obtain ⟨-, hd⟩ := List.append_inj' hu rfl
    cases hd
    exact absurd (hw 'e' (by simp)) (by decide)

/-- Only a call that was left open becomes an allocation that ends with the new line. -/
theorem afters_release {a s : List Char} (ha : a = [] ∨ ∃ t, a = t ++ [';']) (hs : ';' ∉ s)
    (hclosed : ¬ LeftOpen (a ++ s)) :
    allocation.afters [] (s ++ '\n' :: releaseUpTo line x ++ [';']) = [] := by
  rw [afters, List.map_eq_nil_iff,
    occurrencesFrom_eq_nil_iff allocation_spells.lawful allocation_spells.consuming]
  intro pre post hsplit
  cases hread : allocation.readAt (pre.reverse ++ []) post with
  | none => rfl
  | some hit =>
    obtain ⟨captured, rest⟩ := hit
    obtain ⟨hword, m, hm, hpost⟩ := allocation_spells.readAt_iff.mp hread
    cases hm with
    | @intro w inside hw hinside _ =>
      have hstart : WordStart (a ++ pre) := by
        rw [wordStart_iff, List.reverse_append]
        exact (wordBehind_append_congr (wordBehind_statements ha) _).trans hword
      have hleft : ∀ r, s = pre ++ ("malloc".toList ++ w) ++ ['('] ++ r → False := by
        rintro r rfl
        rw [List.mem_append, not_or] at hs
        exact hclosed ⟨a ++ pre, w, r, by simp, hstart, hw, hs.2⟩
      have hsemi : ';' ∉ s ++ '\n' :: releaseUpTo line x := by
        simp [hs, not_mem_releaseUpTo hx]
      -- the statement ends with the new line
      obtain ⟨u, hu, hparts⟩ := exists_of_concat_eq hsplit (by rw [hpost]; simp)
      rw [hparts, List.mem_append, not_or] at hsemi
      have hplain : ';' ∉ "malloc".toList ++ (w ++ '(' :: inside) := by
        simp only [List.mem_append, List.mem_cons, not_or]
        exact ⟨by decide, not_mem_of_allBlank hw (by decide), by decide, hinside⟩
      obtain ⟨rfl, -⟩ := eq_of_append_cons hsemi.2 hplain (by rw [← hu, hpost]; simp; rfl)
      have hopen : s ++ '\n' :: releaseUpTo line x
          = (pre ++ ("malloc".toList ++ w) ++ ['(']) ++ inside := by
        rw [hparts]
        simp
      rcases List.append_eq_append_iff.mp hopen with ⟨r, hr, hnew⟩ | ⟨r, hr, -⟩
      · by_cases hnil : r = []
        · exact (hleft [] (by rw [hr, hnil]; simp)).elim
        · obtain ⟨r, rfl, hq⟩ := exists_of_concat_eq hr hnil
          rw [List.append_assoc, List.singleton_append] at hnew
          rw [eq_of_release hx hnew] at hq
          exact absurd hq (malloc_ne_free hw)
      · exact (hleft r hr).elim

end

/-! ## Main result -/

/-- The number of reported allocations that end in a text, in a block that does not end in it. -/
def leaksInBlock (text back : List Char) : Nat :=
  (allocation.occurrences text).countP fun o =>
    !o.after.contains '\x7d' && unreleased (o.after ++ back)

theorem leaksInBlock_eq (text back : List Char) : leaksInBlock text back
    = (allocation.afters [] text).countP fun t => !t.contains '\x7d' && unreleased (t ++ back) := by
  rw [leaksInBlock, afters, List.countP_map]
  rfl

theorem countP_add_countP_le {α : Type} {p q r : α → Bool} (l : List α)
    (hp : ∀ a, p a = true → q a = true ∧ r a = false) (hr : ∀ a, r a = true → q a = true) :
    l.countP p + l.countP r ≤ l.countP q := by
  induction l with
  | nil => simp
  | cons a l ih =>
    have ha := hp a
    have ha' := hr a
    simp only [List.countP_cons]
    cases hpa : p a <;> cases hra : r a <;> cases hqa : q a <;> simp_all <;> omega

/-- A release behind a text is found from all places before it that the block reaches. -/
theorem unreleased_release (line x t back : List Char) :
    unreleased (t ++ ('\n' :: releaseUpTo line x ++ ';' :: back))
      = (t.contains '\x7d' && unreleased (t ++ back)) := by
  by_cases h : '\x7d' ∈ t
  · rw [unreleased_of_close h _ back, List.contains_iff_mem.mpr h, Bool.true_and]
  · have hopen : '\x7d' ∉ t ++ '\n' :: indentation line := by
      simp only [List.mem_append, List.mem_cons, not_or]
      exact ⟨h, by decide, not_mem_indentation (by decide) (by decide) line⟩
    have hsplit : t ++ ('\n' :: releaseUpTo line x ++ ';' :: back)
        = t ++ '\n' :: indentation line ++ ("free".toList ++ ('(' :: (x ++ ')' :: ';' :: back))) := by
      simp [releaseUpTo]
    rw [hsplit, unreleased_of_free hopen, eq_comm, Bool.and_eq_false_iff]
    exact Or.inl (by simpa using h)

/-- What becomes of the statements before the new line. -/
theorem leaks_before_release (line x : List Char) (l : List (List Char)) (s back : List Char) :
    (l.map (· ++ (s ++ ('\n' :: releaseUpTo line x ++ ';' :: back)))).countP unreleased
        + (l.map (· ++ s)).countP (fun t => !t.contains '\x7d' && unreleased (t ++ back))
      ≤ (l.map (· ++ (s ++ back))).countP unreleased := by
  rw [List.countP_map, List.countP_map, List.countP_map]
  apply countP_add_countP_le
  · intro t ht
    simp only [Function.comp, ← List.append_assoc t s] at ht ⊢
    rw [unreleased_release, Bool.and_eq_true] at ht
    rw [ht.1, ht.2]
    exact ⟨rfl, rfl⟩
  · intro t ht
    simp only [Function.comp, ← List.append_assoc t s] at ht ⊢
    exact (Bool.and_eq_true_iff.mp ht).2

/-- The new line takes away the reports of the allocations whose block reaches it. It adds at most
one, for a call that was left open before it. -/
theorem leaks_release {line x text back : List Char} (hx : AllWord x)
    (hback : back = [] ∨ ∃ t, back = '\n' :: t) :
    ∃ added, leaks [] (text ++ ('\n' :: releaseUpTo line x ++ ';' :: back)) + leaksInBlock text back
        ≤ leaks [] (text ++ back) + added ∧ added ≤ 1 ∧ (¬ LeftOpen text → added = 0) := by
  obtain ⟨a, s, rfl, hs, ha⟩ := exists_last_semicolon text
  have hsemi : ';' ∉ s ++ '\n' :: releaseUpTo line x := by
    simp [hs, not_mem_releaseUpTo hx]
  have hnew : allocation.afters [] (a ++ s ++ ('\n' :: releaseUpTo line x ++ ';' :: back))
      = (allocation.afters [] a).map (· ++ (s ++ ('\n' :: releaseUpTo line x ++ ';' :: back)))
        ++ ((allocation.afters [] (s ++ '\n' :: releaseUpTo line x ++ [';'])).map (· ++ back)
          ++ allocation.afters [] back) := by
    rw [List.append_assoc, afters_statements ha, ← List.append_assoc s, afters_semicolon]
  have hold : allocation.afters [] (a ++ s ++ back)
      = (allocation.afters [] a).map (· ++ (s ++ back)) ++ allocation.afters [] (s ++ back) := by
    rw [List.append_assoc, afters_statements ha]
  have hblock : leaksInBlock (a ++ s) back = ((allocation.afters [] a).map (· ++ s)).countP
      fun t => !t.contains '\x7d' && unreleased (t ++ back) := by
    rw [leaksInBlock_eq, afters_statements ha, afters_of_no_semicolon hs, List.append_nil]
  have hbefore := leaks_before_release line x (allocation.afters [] a) s back
  have hbehind := leaks_back_le hs hback
  rw [leaks, leaks, hnew, hold, hblock]
  simp only [List.countP_append]
  unfold leaks at hbehind
  refine ⟨((allocation.afters [] (s ++ '\n' :: releaseUpTo line x ++ [';'])).map (· ++ back)).countP
    unreleased, by omega, ?_, fun hclosed => ?_⟩
  · rcases afters_statement hsemi [] with hnone | hone
    · rw [hnone]
      exact Nat.zero_le 1
    · rw [hone]
      exact List.countP_le_length
  · rw [afters_release hx ha hs hclosed]
    rfl

/-- An allocation that ends on its line is found in the text up to the end of the line. -/
theorem mem_afters_of_occurrence {text line front back : List Char} {n : Nat} {o : Occurrence}
    (hat : LineAt text n line front back) (ho : o ∈ allocation.occurrences text) (hline : o.line = n)
    (hmatched : '\n' ∉ o.matched) :
    ∃ post, o.after = post ++ back ∧ '\n' ∉ post ∧ post ∈ allocation.afters [] (front ++ line) := by
  obtain ⟨pre, post, -, hpost, hafter⟩ :=
    hat.exists_of_occurrence allocation_spells.lawful ho hline hmatched
  obtain ⟨-, m, hm, hm'⟩ := allocation_spells.readAt_iff.mp
    (readAt_of_mem_occurrencesFrom allocation_spells.lawful ho)
  obtain rfl := List.append_cancel_right hm'
  obtain ⟨t, ht, -⟩ := hm.last
  rw [ht] at hpost
  have hplain := hat.plain
  rw [hpost] at hplain
  simp only [List.mem_append, not_or] at hplain
  refine ⟨post, hafter, hplain.2.2, ?_⟩
  have hmem : o.after ∈ allocation.afters [] (front ++ (pre ++ t) ++ ';' :: (post ++ back)) := by
    have htext : front ++ (pre ++ t) ++ ';' :: (post ++ back) = text := by
      rw [hat.parts, hpost]
      simp
    rw [htext]
    exact List.mem_map_of_mem ho
  -- what is found behind the statement has less behind it
  rw [afters_semicolon, List.mem_append] at hmem
  rcases hmem with hmem | hmem
  · obtain ⟨u, hu, heq⟩ := List.mem_map.mp hmem
    obtain rfl : u = [] := List.append_cancel_right (heq.trans (hafter.trans (List.nil_append _).symm))
    have hsplit : front ++ line = front ++ (pre ++ t) ++ ';' :: post := by
      rw [hpost]
      simp
    rw [hsplit, afters_semicolon]
    exact List.mem_append_left _ (List.mem_map.mpr ⟨[], hu, rfl⟩)
  · have hlt := length_lt_of_mem_afters allocation_spells.lawful allocation_spells.consuming hmem
    rw [hafter] at hlt
    exact absurd hlt (Nat.lt_irrefl _)

theorem firstLine_append_back {post back : List Char} (hpost : '\n' ∉ post)
    (hback : back = [] ∨ ∃ t, back = '\n' :: t) : firstLine (post ++ back) = post := by
  rcases hback with rfl | ⟨t, rfl⟩
  · rw [List.append_nil, firstLine_eq hpost]
  · exact firstLine_append hpost t

/-- A release takes away the reports of the allocations that end by the end of its line, in blocks
that do not end by then. It adds at most one report, if a call that allocates is open at the end of
the line. So there are fewer reports if a reported allocation ends on its line, nothing behind it on
the line ends its block, and no other call is open there. -/
theorem fewer_leaks_of_fixFor {f : Finding} {text : String} {fix : Fix}
    (hcategory : f.category = .memoryLeak) (hfix : fixFor f text = some fix) :
    ∃ out line front back, applyFix text.toList fix = .ok out ∧
      LineAt text.toList f.line line front back ∧
      (∃ added, (linesOf .memoryLeak (String.ofList out)).length + leaksInBlock (front ++ line) back
          ≤ (linesOf .memoryLeak text).length + added ∧ added ≤ 1 ∧
        (¬ LeftOpen (front ++ line) → added = 0)) ∧
      ∀ o, ReportedAt text f o → '\n' ∉ o.matched → '\x7d' ∉ firstLine o.after →
        ¬ LeftOpen (front ++ line) →
          (linesOf .memoryLeak (String.ofList out)).length < (linesOf .memoryLeak text).length := by
  obtain ⟨line, front, back, c, hat, hchange, -, happly⟩ := exists_lineAt_of_fixFor hfix
  rw [hcategory] at hchange
  obtain ⟨-, x, -, -, hx, htext, hedit⟩ := exists_of_release hchange
  obtain ⟨added, hle, hadded, hclosed⟩ :=
    @leaks_release line x (front ++ line) back hx hat.back_start
  have hout : front ++ ((if c.edit = .insertAfter then line ++ '\n' :: c.text else c.text) ++ back)
      = front ++ line ++ ('\n' :: releaseUpTo line x ++ ';' :: back) := by
    rw [if_pos hedit, htext]
    simp
  rw [hout] at happly
  rw [List.append_assoc front line back, ← hat.parts] at hle
  refine ⟨_, line, front, back, happly, hat, ?_, ?_⟩
  · rw [length_linesOf_memoryLeak, length_linesOf_memoryLeak, String.toList_ofList]
    exact ⟨added, hle, hadded, hclosed⟩
  · intro o ho hmatched hblock hopen
    obtain ⟨hmem, hkeep, hline⟩ := ho.of_rule allocationRule_mem hcategory
    obtain ⟨post, hafter, hpost, hfound⟩ := mem_afters_of_occurrence hat hmem hline hmatched
    have hpos : 0 < leaksInBlock (front ++ line) back := by
      rw [leaksInBlock_eq, List.countP_pos_iff]
      refine ⟨post, hfound, ?_⟩
      rw [hafter, firstLine_append_back hpost hat.back_start] at hblock
      rw [Bool.and_eq_true, ← hafter]
      exact ⟨by simpa using hblock, congrArg not hkeep⟩
    rw [length_linesOf_memoryLeak, length_linesOf_memoryLeak, String.toList_ofList]
    have := hclosed hopen
    omega

/-- Behind the last semicolon no call is open without a parenthesis. -/
theorem not_leftOpen {a b : List Char} (hb : '(' ∉ b) : ¬ LeftOpen (a ++ ';' :: b) := by
  rintro ⟨pre, w, inside, h, -, -, hinside⟩
  have hsplit : a ++ ';' :: b = (pre ++ ("malloc".toList ++ w)) ++ '(' :: inside := by
    rw [h]
    simp
  rcases List.append_eq_append_iff.mp hsplit with ⟨r, -, hr⟩ | ⟨r, -, hr⟩
  · cases r with
    | nil => cases hr
    | cons c r =>
      obtain ⟨-, rfl⟩ := List.cons.inj hr
      exact hb (by simp)
  · cases r with
    | nil => cases hr
    | cons c r =>
      obtain ⟨-, rfl⟩ := List.cons.inj hr
      exact hinside (by simp)

def openBlockText : String := "p = malloc(1);\n  q = malloc(2); r(q); // \x7b\n\x7d\n"

/-- Both allocations have the release of the second in their block. -/
theorem fewer_leaks_open_block : ∃ f ∈ scan openBlockText, ∃ fix out, f.category = .memoryLeak ∧
    f.line = 2 ∧ fixFor f openBlockText = some fix ∧ applyFix openBlockText.toList fix = .ok out ∧
      (linesOf .memoryLeak (String.ofList out)).length
        < (linesOf .memoryLeak openBlockText).length := by
  have hsome : ((allocation.occurrences openBlockText.toList).any fun o => !isReleased o &&
      o.line = 2 && !o.matched.contains '\n' && !(firstLine o.after).contains '\x7d') = true := by
    decide +kernel
  obtain ⟨o, hmem, ho⟩ := List.any_eq_true.mp hsome
  simp only [Bool.and_eq_true, Bool.not_eq_true', decide_eq_true_eq, List.contains_eq_mem,
    decide_eq_false_iff_not] at ho
  obtain ⟨⟨⟨hkeep, hline⟩, hmatched⟩, hblock⟩ := ho
  have hreported : ReportedAt openBlockText (Rule.finding ⟨.memoryLeak, allocation, isReleased⟩ o) o :=
    ⟨_, allocationRule_mem, hmem, hkeep, rfl⟩
  have hfixed : (fixAt .memoryLeak 2 openBlockText).isSome = true := by decide +kernel
  obtain ⟨fix, hfix⟩ := Option.isSome_iff_exists.mp hfixed
  rw [← hline] at hfix
  obtain ⟨out, line, front, back, happly, hat, -, hfewer⟩ := @fewer_leaks_of_fixFor
    (Rule.finding ⟨.memoryLeak, allocation, isReleased⟩ o) openBlockText fix rfl hfix
  have hat' : LineAt openBlockText.toList o.line "  q = malloc(2); r(q); // \x7b".toList
      "p = malloc(1);\n".toList "\n\x7d\n".toList :=
    ⟨rfl, hline.trans rfl, by decide, Or.inr ⟨"p = malloc(1);".toList, rfl⟩, Or.inr ⟨_, rfl⟩⟩
  obtain ⟨rfl, rfl, rfl⟩ := hat.unique hat'
  have hclosed : ¬ LeftOpen ("p = malloc(1);\n  q = malloc(2); r(q)".toList ++ ';' :: " // \x7b".toList) :=
    not_leftOpen (by decide)
  exact ⟨_, mem_scan_iff.mpr ⟨o, hreported⟩, fix, out, rfl, hline, hfix, happly,
    hfewer o hreported hmatched hblock hclosed⟩

def closedBlockText : String := "void f() \x7b char *p = malloc(4); \x7d"

/-- The release comes behind the end of the block. -/
theorem leaks_closed_block : ∃ f ∈ scan closedBlockText, ∃ fix out, f.category = .memoryLeak ∧
    fixFor f closedBlockText = some fix ∧ applyFix closedBlockText.toList fix = .ok out ∧
      ¬ (linesOf .memoryLeak (String.ofList out)).length
        < (linesOf .memoryLeak closedBlockText).length := by
  have hmem : 1 ∈ linesOf .memoryLeak closedBlockText := by decide +kernel
  obtain ⟨f, hf, hcategory, hline⟩ := mem_linesOf_iff.mp hmem
  have hout : ((fixAt .memoryLeak 1 closedBlockText).bind fun fix =>
      (applyFix closedBlockText.toList fix).toOption)
      = some (closedBlockText ++ "\nfree(p);").toList := by decide +kernel
  obtain ⟨fix, hfix, happly⟩ := Option.bind_eq_some_iff.mp hout
  rw [← hline, ← hcategory] at hfix
  refine ⟨f, hf, fix, (closedBlockText ++ "\nfree(p);").toList, hcategory, hfix, ?_,
    by decide +kernel⟩
  cases hresult : applyFix closedBlockText.toList fix with
  | error e =>
    rw [hresult] at happly
    cases happly
  | ok out =>
    rw [hresult] at happly
    rw [← Option.some.inj happly]

end Proposal

end DefectScan
