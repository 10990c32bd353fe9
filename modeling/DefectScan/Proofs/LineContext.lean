import DefectScan.Proofs.ProposedFixes
import DefectScan.Proofs.ReadingPlaces

/-!
# A line in its text

A line stands between what is in front of it, which ends with a line feed, and what is behind it,
which begins with one (`LineAt`). A proposed fix changes only what stands between the two:

    applyFix (front ++ (line ++ back)) fix = .ok (front ++ (Lines.join (editLine fix line) ++ back))
-/

namespace DefectScan

open Text

/-! ## Lines in front and behind -/

namespace Text.Lines

/-- Line `n` of a text, between what stands in front of it and what stands behind it. -/
structure LineAt (text : List Char) (n : Nat) (line front back : List Char) : Prop where
  parts : text = front ++ (line ++ back)
  number : n = front.count '\n' + 1
  plain : '\n' ∉ line
  front_end : front = [] ∨ ∃ t, front = t ++ ['\n']
  back_start : back = [] ∨ ∃ t, back = '\n' :: t

/-- What stands before the first line feed. -/
def firstLine (text : List Char) : List Char := text.takeWhile (· ≠ '\n')

theorem firstLine_append {text : List Char} (h : '\n' ∉ text) (rest : List Char) :
    firstLine (text ++ '\n' :: rest) = text := by
  have hrun : ∀ c ∈ text, decide (c ≠ '\n') = true :=
    fun c hc => decide_eq_true fun heq => h (heq ▸ hc)
  exact (Pattern.span_eq hrun (by decide) rest).1

theorem firstLine_eq {text : List Char} (h : '\n' ∉ text) : firstLine text = text := by
  have hrun : ∀ c ∈ text, decide (c ≠ '\n') = true :=
    fun c hc => decide_eq_true fun heq => h (heq ▸ hc)
  have htake := @List.takeWhile_append_of_pos Char _ text [] hrun
  rwa [List.append_nil, List.takeWhile_nil, List.append_nil] at htake

theorem not_mem_firstLine (text : List Char) : '\n' ∉ firstLine text := by
  intro hmem
  have hne := List.all_eq_true.mp List.all_takeWhile _ hmem
  exact of_decide_eq_true hne rfl

/-- What follows the first line begins with a line feed, if there is anything. -/
theorem dropWhile_newline_start (text : List Char) :
    text.dropWhile (· ≠ '\n') = [] ∨ ∃ rest, text.dropWhile (· ≠ '\n') = '\n' :: rest := by
  cases hdrop : text.dropWhile (· ≠ '\n') with
  | nil => exact .inl rfl
  | cons c rest =>
    have hnot := List.head?_dropWhile_not (· ≠ '\n') text
    rw [hdrop] at hnot
    obtain rfl : c = '\n' := by simpa using hnot
    exact .inr ⟨rest, rfl⟩

theorem join_append_cons (pre : List (List Char)) (l : List Char) (post : List (List Char)) :
    join (pre ++ l :: post)
      = pre.flatMap (· ++ ['\n']) ++ (l ++ post.flatMap ('\n' :: ·)) := by
  induction pre with
  | nil =>
    induction post generalizing l with
    | nil => simp [join]
    | cons m post ih =>
      rw [List.nil_append, join_cons_cons, ← List.nil_append (m :: post), ih]
      simp
  | cons k pre ih =>
    rw [List.cons_append, join_cons (by simp), ih]
    simp

theorem join_around (pre mid post : List (List Char)) (hmid : mid ≠ []) :
    join (pre ++ (mid ++ post))
      = pre.flatMap (· ++ ['\n']) ++ (join mid ++ post.flatMap ('\n' :: ·)) := by
  obtain ⟨l, ls, rfl⟩ := List.exists_cons_of_ne_nil hmid
  rw [List.cons_append, join_append_cons, ← List.nil_append (l :: ls), join_append_cons]
  simp

theorem count_flatMap_newline {ls : List (List Char)} (h : ∀ l ∈ ls, '\n' ∉ l) :
    (ls.flatMap (· ++ ['\n'])).count '\n' = ls.length := by
  induction ls with
  | nil => rfl
  | cons l ls ih =>
    obtain ⟨hl, hls⟩ := List.forall_mem_cons.mp h
    simp [List.count_eq_zero.mpr hl, ih hls]

theorem lineAt_of_split {text line : List Char} {above below : List (List Char)}
    (h : split text = above ++ line :: below) :
    LineAt text (above.length + 1) line (above.flatMap (· ++ ['\n']))
      (below.flatMap ('\n' :: ·)) := by
  have hlines : ∀ l ∈ above ++ line :: below, '\n' ∉ l := by
    rw [← h]
    exact fun l => not_mem_of_mem_split
  simp only [List.forall_mem_append, List.forall_mem_cons] at hlines
  obtain ⟨habove, hline, -⟩ := hlines
  refine ⟨?_, by rw [count_flatMap_newline habove], hline, ?_, ?_⟩
  · rw [← join_append_cons, ← h, join_split]
  · rcases List.eq_nil_or_concat above with rfl | ⟨ls, l, rfl⟩
    · exact Or.inl rfl
    · exact Or.inr ⟨ls.flatMap (· ++ ['\n']) ++ l, by simp⟩
  · cases below with
    | nil => exact Or.inl rfl
    | cons l ls => exact Or.inr ⟨_, rfl⟩

theorem LineAt.numbered? {text line front back : List Char} {n : Nat}
    (h : LineAt text n line front back) : numbered? text n = some line := by
  have hline : ∃ ls, split (line ++ back) = line :: ls := by
    rcases h.back_start with rfl | ⟨t, rfl⟩
    · exact ⟨[], by rw [List.append_nil, split_of_not_mem line h.plain]⟩
    · exact ⟨split t, by rw [split_append_newline, split_of_not_mem line h.plain]; rfl⟩
  obtain ⟨ls, hls⟩ := hline
  rw [Lines.numbered?, h.number, if_neg (Nat.succ_ne_zero _), Nat.add_sub_cancel, h.parts]
  rcases h.front_end with rfl | ⟨t, rfl⟩
  · simp [hls]
  · have hlength : (t ++ ['\n']).count '\n' = (split t).length := by
      have := count_eq t
      unfold count at this
      simp [this]
    rw [List.append_assoc, List.singleton_append, split_append_newline, hls, hlength,
      List.getElem?_append_right (Nat.le_refl _)]
    simp

/-- What is put in place of a line begins with its own first line. -/
theorem LineAt.replace {text line front back : List Char} {n : Nat} (h : LineAt text n line front back)
    (new : List Char) :
    LineAt (front ++ (new ++ back)) n (firstLine new) front
      (new.dropWhile (· ≠ '\n') ++ back) := by
  refine ⟨?_, h.number, not_mem_firstLine new, h.front_end, ?_⟩
  · rw [firstLine, ← List.append_assoc (new.takeWhile _), List.takeWhile_append_dropWhile]
  · rcases dropWhile_newline_start new with hnil | ⟨rest, hrest⟩
    · rw [hnil]
      exact h.back_start
    · exact Or.inr ⟨rest ++ back, by rw [hrest, List.cons_append]⟩

/-- A place of the text that stands on the line. -/
theorem LineAt.exists_of_count {text line front back a b : List Char} {n : Nat}
    (h : LineAt text n line front back) (hab : text = a ++ b) (hn : a.count '\n' + 1 = n) :
    ∃ pre post, a = front ++ pre ∧ line = pre ++ post ∧ b = post ++ back := by
  have hcount : a.count '\n' = front.count '\n' := Nat.succ.inj (hn.trans h.number)
  rcases List.append_eq_append_iff.mp (h.parts.symm.trans hab) with
    ⟨pre, rfl, hpre⟩ | ⟨beyond, hover, rfl⟩
  · rw [List.count_append] at hcount
    rcases List.append_eq_append_iff.mp hpre with ⟨beyond, rfl, hback⟩ | ⟨post, rfl, rfl⟩
    · rcases h.back_start with rfl | ⟨t, rfl⟩
      · obtain ⟨rfl, rfl⟩ := List.append_eq_nil_iff.mp hback.symm
        exact ⟨line, [], by simp⟩
      · cases beyond with
        | nil => exact ⟨line, [], by simp, by simp, hback.symm⟩
        | cons c beyond =>
          obtain ⟨rfl, -⟩ := List.cons.inj hback
          simp at hcount
    · exact ⟨pre, post, rfl, rfl, rfl⟩
  · -- what is in front of the line ends with a line feed, so no part of it can be missing
    rcases h.front_end with rfl | ⟨t, rfl⟩
    · obtain ⟨rfl, rfl⟩ := List.append_eq_nil_iff.mp hover.symm
      exact ⟨[], line, rfl, rfl, rfl⟩
    · by_cases hnil : beyond = []
      · rw [hnil, List.append_nil] at hover
        exact ⟨[], line, by rw [hover]; simp, by simp, by rw [hnil]; simp⟩
      · obtain ⟨u, rfl, -⟩ := Pattern.exists_of_concat_eq hover hnil
        rw [hover] at hcount
        simp at hcount

/-- A line has one place in its text. -/
theorem LineAt.unique {text line front back line' front' back' : List Char} {n : Nat}
    (h : LineAt text n line front back) (h' : LineAt text n line' front' back') :
    front = front' ∧ line = line' ∧ back = back' := by
  obtain ⟨pre, -, hpre, -⟩ := h.exists_of_count h'.parts h'.number.symm
  obtain ⟨pre', -, hpre', -⟩ := h'.exists_of_count h.parts h.number.symm
  have hfront : front = front' := by
    have hlength := congrArg List.length hpre
    have hlength' := congrArg List.length hpre'
    simp only [List.length_append] at hlength hlength'
    obtain rfl : pre = [] := List.length_eq_zero_iff.mp (by omega)
    rw [hpre, List.append_nil]
  have hline : line = line' := Option.some.inj (h.numbered?.symm.trans h'.numbered?)
  have hparts := h.parts.symm.trans h'.parts
  rw [hfront, hline] at hparts
  exact ⟨hfront, hline, List.append_cancel_left (List.append_cancel_left hparts)⟩

end Text.Lines

/-! ## A fix that was proposed -/

/-- In front of a line no word is left open. -/
theorem Text.Lines.LineAt.wordBehind_front {text line front back : List Char} {n : Nat}
    (h : Lines.LineAt text n line front back) : Pattern.wordBehind front.reverse = false := by
  rcases h.front_end with rfl | ⟨t, rfl⟩
  · rfl
  · have hnewline : isWord '\n' = false := by decide
    rw [List.reverse_append]
    exact hnewline

/-- What is read behind a line does not depend on the line, if a line feed cannot begin it. -/
theorem Pattern.linesWhere_back {p : Pattern} (hp : ∀ t, p.read ('\n' :: t) = none)
    {back : List Char} (hback : back = [] ∨ ∃ t, back = '\n' :: t) {behind behind' : List Char}
    (hcount : behind.count '\n' = behind'.count '\n') (keep : List Char → Bool) :
    linesWhere (p.reports keep) behind back = linesWhere (p.reports keep) behind' back := by
  rcases hback with rfl | ⟨t, rfl⟩
  · rfl
  · have hnone : ∀ behind, p.reports keep behind ('\n' :: t) = false :=
      fun behind => reports_of_readAt_none (readAt_of_read_none (hp t) behind)
    have hcount' : ('\n' :: behind).count '\n' = ('\n' :: behind').count '\n' := by simp [hcount]
    rw [linesWhere, linesWhere, hnone, hnone]
    exact p.linesWhere_behind hcount' rfl keep t

/-- The line of an occurrence and what stands before it there. -/
theorem Text.Lines.LineAt.lineBefore {text line front back pre post : List Char} {n : Nat}
    (h : Lines.LineAt text n line front back) (hline : line = pre ++ post) {o : Occurrence}
    (hbehind : o.behind = pre.reverse ++ front.reverse) : o.line = n ∧ o.lineBefore = pre := by
  have hplain : '\n' ∉ pre := fun hmem => h.plain (by rw [hline]; exact List.mem_append_left _ hmem)
  have hrun : ∀ c ∈ pre.reverse, decide (c ≠ '\n') = true := by
    intro c hc
    exact decide_eq_true fun heq => hplain (by rw [← heq]; exact List.mem_reverse.mp hc)
  have hfront : front.reverse.takeWhile (· ≠ '\n') = [] := by
    rcases h.front_end with rfl | ⟨t, rfl⟩
    · rfl
    · simp
  constructor
  · rw [Occurrence.line, hbehind, h.number]
    simp [List.count_eq_zero.mpr hplain]
  · rw [Occurrence.lineBefore, hbehind, List.takeWhile_append_of_pos hrun, hfront]
    simp

/-- An occurrence on one line, within that line. -/
theorem Text.Lines.LineAt.exists_of_occurrence {text line front back : List Char} {n : Nat}
    (h : Lines.LineAt text n line front back) {p : Pattern} (hp : p.Lawful) {o : Occurrence}
    (ho : o ∈ p.occurrences text) (hline : o.line = n) (hmatched : '\n' ∉ o.matched) :
    ∃ pre post, o.behind = pre.reverse ++ front.reverse ∧ line = pre ++ (o.matched ++ post) ∧
      o.after = post ++ back := by
  have hparts := (Pattern.occurrencesFrom_parts hp ho).1
  obtain ⟨pre, post, hbehind, hpre, hpost⟩ :=
    h.exists_of_count hparts.symm (by rw [List.count_reverse]; exact hline)
  have hbehind' : o.behind = pre.reverse ++ front.reverse := by
    rw [← List.reverse_append, ← hbehind, List.reverse_reverse]
  rcases List.append_eq_append_iff.mp hpost with ⟨beyond, hover, hafter⟩ | ⟨beyond, hover, hback⟩
  · exact ⟨pre, beyond, hbehind', by rw [hpre, hover], hafter⟩
  · cases beyond with
    | nil => exact ⟨pre, [], hbehind', by rw [hpre, hover]; simp, by simpa using hback.symm⟩
    | cons c beyond =>
      rcases h.back_start with hnil | ⟨t, ht⟩
      · rw [hnil] at hback
        cases hback
      · rw [ht] at hback
        obtain ⟨rfl, -⟩ := List.cons.inj hback
        exact absurd (by rw [hover]; simp) hmatched

namespace Proposal

open Patch Text.Lines Pattern

theorem applyFix_of_split {text line : List Char} {above below : List (List Char)} {fix : Fix}
    (hsplit : split text = above ++ line :: below) (hfix : fix.line = above.length + 1) :
    applyFix text fix = .ok (above.flatMap (· ++ ['\n']) ++
      (join (editLine fix line) ++ below.flatMap ('\n' :: ·))) := by
  have habove : ∀ l ∈ above, '\n' ∉ l :=
    fun l hl => not_mem_of_mem_split (by rw [hsplit]; exact List.mem_append_left _ hl)
  have happly := applyFix_join below habove (lineAt_of_split hsplit).plain hfix
  rw [← hsplit, join_split] at happly
  rw [happly, join_around _ _ _ (by unfold editLine; split <;> simp)]

/-- A proposed fix, with the change that it makes of its line and the text that it leads to. -/
theorem exists_lineAt_of_fixFor {f : Finding} {text : String} {fix : Fix}
    (h : fixFor f text = some fix) :
    ∃ line front back c, LineAt text.toList f.line line front back ∧
      changeFor f.category line = some c ∧ fix.replacementText.toList = c.text ∧
      applyFix text.toList fix = .ok (front ++
        ((if c.edit = .insertAfter then line ++ '\n' :: c.text else c.text) ++ back)) := by
  obtain ⟨line, c, hnumbered, hchange, rfl⟩ := fixAt_eq_some_iff.mp h
  obtain ⟨above, below, hsplit, hnumber⟩ := exists_of_numbered? hnumbered
  have hat := lineAt_of_split hsplit
  rw [← hnumber] at hat
  refine ⟨line, _, _, c, hat, hchange, String.toList_ofList, ?_⟩
  rw [applyFix_of_split hsplit hnumber]
  cases c.edit <;> simp [editLine, join]

end Proposal

end DefectScan
