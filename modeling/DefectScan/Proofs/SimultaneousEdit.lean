import DefectScan.Patch.Apply
import DefectScan.Proofs.Lines

/-!
# Several fixes are one simultaneous edit

`applyFixes` puts the fixes in by turns, each into the text that the one before it made. Here they
are all read against the original text (`editedAtOnce`), and the two agree:

    applyFixes text fixes = .ok out ↔ Applicable text fixes ∧ out = editedAtOnce text fixes

The fixes go in from the bottom up. So, whatever has become of the lines below, the lines above the
last edit are still those of the original text and still have its numbers (`applyAll_join`).
-/

namespace DefectScan.Patch

open Text

/-! ## The edit at once -/

/-- What stands in the place of a line with number `n`. -/
def editedLine (fixes : List Fix) (line : List Char) (n : Nat) : List (List Char) :=
  match fixes.find? (·.line = n) with
  | none => [line]
  | some fix =>
    match fix.edit with
    | .replaceLine => [fix.replacementText.toList]
    | .insertAfter => [line, fix.replacementText.toList]

/-- Lines that are numbered from `start`, each with its own edit. -/
def editedFrom (fixes : List Fix) (start : Nat) (ls : List (List Char)) : List (List Char) :=
  (ls.zipIdx start).flatMap fun (line, n) => editedLine fixes line n

/-- The original lines, each with its own edit. -/
def editedAtOnce (text : List Char) (fixes : List Fix) : List Char :=
  Lines.join (editedFrom fixes 1 (Lines.split text))

/-- No two fixes concern one line, and every fix concerns a line of the text. -/
structure Applicable (text : List Char) (fixes : List Fix) : Prop where
  distinct : (fixes.map (·.line)).Nodup
  inRange : ∀ fix ∈ fixes, 1 ≤ fix.line ∧ fix.line ≤ Lines.count text

/-! ## Lines that no fix concerns -/

theorem editedLine_of_forall_ne {fixes : List Fix} {n : Nat} (h : ∀ fix ∈ fixes, fix.line ≠ n)
    (line : List Char) : editedLine fixes line n = [line] := by
  have hnone : fixes.find? (·.line = n) = none := by
    rw [List.find?_eq_none]
    intro fix hfix
    simp [h fix hfix]
  simp only [editedLine, hnone]

theorem editedLine_cons_of_ne {fix : Fix} {n : Nat} (h : fix.line ≠ n) (fixes : List Fix)
    (line : List Char) : editedLine (fix :: fixes) line n = editedLine fixes line n := by
  simp only [editedLine, List.find?_cons, h, decide_false]

theorem editedLine_cons_self {fix : Fix} {n : Nat} (h : fix.line = n) (fixes : List Fix)
    (line : List Char) : editedLine (fix :: fixes) line n = editLine fix line := by
  simp only [editedLine, List.find?_cons, h, decide_true]
  rfl

theorem editedFrom_cons (fixes : List Fix) (start : Nat) (l : List Char) (ls : List (List Char)) :
    editedFrom fixes start (l :: ls) = editedLine fixes l start ++ editedFrom fixes (start + 1) ls := by
  simp only [editedFrom, List.zipIdx_cons, List.flatMap_cons]

theorem editedFrom_append (fixes : List Fix) (start : Nat) (as bs : List (List Char)) :
    editedFrom fixes start (as ++ bs)
      = editedFrom fixes start as ++ editedFrom fixes (start + as.length) bs := by
  simp only [editedFrom, List.zipIdx_append, List.flatMap_append]

theorem editedFrom_of_lt {fixes : List Fix} {start : Nat} (h : ∀ fix ∈ fixes, fix.line < start)
    (ls : List (List Char)) : editedFrom fixes start ls = ls := by
  induction ls generalizing start with
  | nil => rfl
  | cons l ls ih =>
    rw [editedFrom_cons, editedLine_of_forall_ne (fun fix hfix => Nat.ne_of_lt (h fix hfix)),
      ih fun fix hfix => Nat.lt_succ_of_lt (h fix hfix)]
    rfl

theorem editedFrom_cons_of_le {fix : Fix} {start : Nat} {ls : List (List Char)}
    (h : start + ls.length ≤ fix.line) (fixes : List Fix) :
    editedFrom (fix :: fixes) start ls = editedFrom fixes start ls := by
  induction ls generalizing start with
  | nil => rfl
  | cons l ls ih =>
    rw [List.length_cons] at h
    rw [editedFrom_cons, editedFrom_cons, editedLine_cons_of_ne (by omega), ih (by omega)]

/-- The last of the lines that are concerned divides the text. -/
theorem editedFrom_cons_split {fix : Fix} {fixes : List Fix} (h : ∀ f ∈ fixes, f.line < fix.line)
    {above below : List (List Char)} (habove : fix.line = above.length + 1) (line : List Char) :
    editedFrom (fix :: fixes) 1 (above ++ line :: below)
      = editedFrom fixes 1 above ++ editLine fix line ++ below := by
  have hbelow : editedFrom (fix :: fixes) (1 + above.length + 1) below = below := by
    apply editedFrom_of_lt
    intro f hf
    rcases List.mem_cons.mp hf with rfl | hf
    · omega
    · have := h f hf
      omega
  rw [editedFrom_append, editedFrom_cons_of_le (by omega), editedFrom_cons,
    editedLine_cons_self (by omega), hbelow, List.append_assoc]

/-! ## The fixes by turns -/

theorem applyFix_ok {text out : List Char} {fix : Fix} (h : applyFix text fix = .ok out) :
    1 ≤ fix.line ∧ fix.line ≤ Lines.count text := by
  simp only [applyFix] at h
  split at h
  · cases h
  · next hline =>
    simp only [Bool.or_eq_true, decide_eq_true_eq, not_or] at hline
    unfold Lines.count
    omega

/-- One fix on a line that has only whole lines above it. Below it there may stand pieces that were
put in before and hold line feeds. -/
theorem applyFix_join {above : List (List Char)} {line : List Char} {fix : Fix}
    (below : List (List Char)) (habove : ∀ l ∈ above, '\n' ∉ l) (hline : '\n' ∉ line)
    (hfix : fix.line = above.length + 1) :
    applyFix (Lines.join (above ++ line :: below)) fix
      = .ok (Lines.join (above ++ (editLine fix line ++ below))) := by
  have hsplit : Lines.split (Lines.join (above ++ line :: below))
      = above ++ line :: below.flatMap Lines.split := by
    have := Lines.split_join_append (above ++ [line]) below
      (by
        intro l hl
        rcases List.mem_append.mp hl with hl | hl
        · exact habove l hl
        · rwa [List.mem_singleton.mp hl])
      (by simp)
    simpa using this
  have hrange : ¬ ((decide (fix.line = 0) || decide
      ((above ++ line :: below.flatMap Lines.split).length < fix.line)) = true) := by
    simp [hfix]
  have hget : (above ++ line :: below.flatMap Lines.split).getD above.length [] = line := by
    simp
  have hdrop : (above ++ line :: below.flatMap Lines.split).drop (above.length + 1)
      = below.flatMap Lines.split := by
    rw [List.drop_append]
    simp
  simp only [applyFix, hsplit]
  rw [if_neg hrange, hfix, Nat.add_sub_cancel, List.take_left, hget, hdrop,
    Lines.join_append_flatMap_split, List.append_assoc]

/-- Fixes from the bottom up, on whole lines with any pieces below them. -/
theorem applyAll_join (fixes : List Fix) :
    ∀ (above below : List (List Char)), (∀ l ∈ above, '\n' ∉ l) →
      fixes.Pairwise (fun a b => b.line < a.line) →
      (∀ fix ∈ fixes, 1 ≤ fix.line ∧ fix.line ≤ above.length) →
      applyAll (Lines.join (above ++ below)) fixes
        = .ok (Lines.join (editedFrom fixes 1 above ++ below)) := by
  induction fixes with
  | nil =>
    intro above below _ _ _
    rw [editedFrom_of_lt (by simp)]
    rfl
  | cons fix fixes ih =>
    intro above below hlines hsorted hrange
    obtain ⟨hlast, hsorted⟩ := List.pairwise_cons.mp hsorted
    obtain ⟨h1, hle⟩ := hrange fix List.mem_cons_self
    -- the lines above the fix keep their numbers; the rest joins what is already done
    obtain ⟨upper, line, lower, rfl, hupper⟩ :
        ∃ upper line lower, above = upper ++ line :: lower ∧ fix.line = upper.length + 1 := by
      refine ⟨above.take (fix.line - 1), above[fix.line - 1], above.drop fix.line, ?_, ?_⟩
      · have hdrop := List.drop_eq_getElem_cons (l := above) (i := fix.line - 1) (by omega)
        rw [show fix.line - 1 + 1 = fix.line by omega] at hdrop
        rw [← hdrop, List.take_append_drop]
      · rw [List.length_take]
        omega
    have hstep := applyFix_join (lower ++ below) (fun l hl => hlines l (List.mem_append_left _ hl))
      (hlines line (List.mem_append_right _ List.mem_cons_self)) hupper
    have hrest := ih upper (editLine fix line ++ (lower ++ below))
      (fun l hl => hlines l (List.mem_append_left _ hl)) hsorted
      (fun f hf => ⟨(hrange f (List.mem_cons_of_mem _ hf)).1, by have := hlast f hf; omega⟩)
    rw [List.append_assoc, List.cons_append, applyAll, hstep]
    simp only [hrest, editedFrom_cons_split hlast hupper, List.append_assoc]

/-- Fixes from the bottom up on a whole text. -/
theorem applyAll_of_applicable {text : List Char} {fixes : List Fix}
    (hsorted : fixes.Pairwise fun a b => b.line < a.line) (h : Applicable text fixes) :
    applyAll text fixes = .ok (editedAtOnce text fixes) := by
  have := applyAll_join fixes (Lines.split text) [] (fun _ => Lines.not_mem_of_mem_split) hsorted
    h.inRange
  rwa [List.append_nil, List.append_nil, Lines.join_split] at this

theorem pos_of_applyAll_ok {text out : List Char} {fixes : List Fix}
    (h : applyAll text fixes = .ok out) : ∀ fix ∈ fixes, 1 ≤ fix.line := by
  induction fixes generalizing text with
  | nil => simp
  | cons fix fixes ih =>
    rw [applyAll] at h
    split at h
    · next next hfix =>
      intro f hf
      rcases List.mem_cons.mp hf with rfl | hf
      · exact (applyFix_ok hfix).1
      · exact ih h f hf
    · cases h

/-- The first fix shows that none reaches behind the last line. -/
theorem inRange_of_applyAll_ok {text out : List Char} {fixes : List Fix}
    (hsorted : fixes.Pairwise fun a b => b.line < a.line) (h : applyAll text fixes = .ok out) :
    ∀ fix ∈ fixes, 1 ≤ fix.line ∧ fix.line ≤ Lines.count text := by
  intro fix hfix
  refine ⟨pos_of_applyAll_ok h fix hfix, ?_⟩
  cases fixes with
  | nil => cases hfix
  | cons first rest =>
    rw [applyAll] at h
    split at h
    · next next hfirst =>
      have hle := (applyFix_ok hfirst).2
      rcases List.mem_cons.mp hfix with rfl | hfix
      · exact hle
      · have := List.rel_of_pairwise_cons hsorted hfix
        omega
    · cases h

/-! ## Sorting -/

theorem bottomUp_perm (fixes : List Fix) : (bottomUp fixes).Perm fixes :=
  List.mergeSort_perm fixes _

theorem bottomUp_pairwise (fixes : List Fix) :
    (bottomUp fixes).Pairwise fun a b => b.line ≤ a.line := by
  have h := @List.pairwise_mergeSort Fix (fun a b => decide (b.line ≤ a.line))
    (fun a b c hab hbc => by simp only [decide_eq_true_eq] at *; omega)
    (fun a b => by simp only [Bool.or_eq_true, decide_eq_true_eq]; omega) fixes
  exact h.imp fun hab => of_decide_eq_true hab

/-- Among sorted fixes two for one line are neighbours. -/
theorem conflict?_eq_none_iff {fixes : List Fix}
    (hsorted : fixes.Pairwise fun a b => b.line ≤ a.line) :
    conflict? fixes = none ↔ fixes.Pairwise fun a b => b.line < a.line := by
  induction fixes with
  | nil => simp [conflict?]
  | cons a rest ih =>
    cases rest with
    | nil => simp [conflict?]
    | cons b rest =>
      obtain ⟨hfirst, htail⟩ := List.pairwise_cons.mp hsorted
      have hab := hfirst b List.mem_cons_self
      rw [conflict?]
      by_cases heq : a.line = b.line
      · rw [if_pos heq]
        constructor
        · intro h
          cases h
        · intro h
          have := List.rel_of_pairwise_cons h List.mem_cons_self
          omega
      · rw [if_neg heq, ih htail]
        constructor
        · intro h
          refine List.pairwise_cons.mpr ⟨fun f hf => ?_, h⟩
          rcases List.mem_cons.mp hf with rfl | hf
          · omega
          · have := List.rel_of_pairwise_cons htail hf
            omega
        · intro h
          exact (List.pairwise_cons.mp h).2

theorem conflict?_bottomUp (fixes : List Fix) :
    conflict? (bottomUp fixes) = none ↔ (fixes.map (·.line)).Nodup := by
  rw [conflict?_eq_none_iff (bottomUp_pairwise fixes),
    ← ((bottomUp_perm fixes).map (·.line)).nodup_iff, List.Nodup, List.pairwise_map]
  constructor
  · intro h
    exact h.imp fun hab => Ne.symm (Nat.ne_of_lt hab)
  · intro h
    exact (h.and (bottomUp_pairwise fixes)).imp fun hab => by omega

/-! ## The order of the fixes -/

theorem find?_perm {fixes fixes' : List Fix} (hperm : fixes.Perm fixes')
    (h : (fixes.map (·.line)).Nodup) (n : Nat) :
    fixes.find? (·.line = n) = fixes'.find? (·.line = n) := by
  induction hperm with
  | nil => rfl
  | cons fix _ ih =>
    rw [List.map_cons, List.nodup_cons] at h
    rw [List.find?_cons, List.find?_cons, ih h.2]
  | swap a b l =>
    simp only [List.map_cons, List.nodup_cons, List.mem_cons, not_or] at h
    simp only [List.find?_cons]
    by_cases ha : a.line = n
    · simp [ha, show ¬ b.line = n by rw [← ha]; exact h.1.1]
    · simp [ha]
  | trans h1 h2 ih1 ih2 => rw [ih1 h, ih2 ((h1.map _).nodup_iff.mp h)]

theorem editedAtOnce_perm {fixes fixes' : List Fix} (hperm : fixes.Perm fixes')
    (h : (fixes.map (·.line)).Nodup) (text : List Char) :
    editedAtOnce text fixes = editedAtOnce text fixes' := by
  simp only [editedAtOnce, editedFrom, editedLine, find?_perm hperm h]

theorem Applicable.perm {text : List Char} {fixes fixes' : List Fix} (h : Applicable text fixes)
    (hperm : fixes.Perm fixes') : Applicable text fixes' where
  distinct := (hperm.map _).nodup_iff.mp h.distinct
  inRange fix hfix := h.inRange fix (hperm.mem_iff.mpr hfix)

/-! ## Main results -/

theorem applyFixes_of_applicable {text : List Char} {fixes : List Fix} (h : Applicable text fixes) :
    applyFixes text fixes = .ok (editedAtOnce text fixes) := by
  have hnone := (conflict?_bottomUp fixes).mpr h.distinct
  have hsorted := (conflict?_eq_none_iff (bottomUp_pairwise fixes)).mp hnone
  simp only [applyFixes, hnone]
  rw [applyAll_of_applicable hsorted (h.perm (bottomUp_perm fixes).symm),
    editedAtOnce_perm (bottomUp_perm fixes).symm h.distinct]

theorem applicable_of_applyFixes_ok {text out : List Char} {fixes : List Fix}
    (h : applyFixes text fixes = .ok out) : Applicable text fixes := by
  simp only [applyFixes] at h
  split at h
  · cases h
  · next hnone =>
    have hsorted := (conflict?_eq_none_iff (bottomUp_pairwise fixes)).mp hnone
    refine ⟨(conflict?_bottomUp fixes).mp hnone, fun fix hfix => ?_⟩
    exact inRange_of_applyAll_ok hsorted h fix ((bottomUp_perm fixes).mem_iff.mpr hfix)

/-- Fixes succeed exactly if they concern different lines of the text, and then every line of the
original text has its own edit, in whatever order the fixes are given. -/
theorem applyFixes_ok_iff_editedAtOnce (text : List Char) (fixes : List Fix) :
    ((∃ out, applyFixes text fixes = .ok out) ↔
      (fixes.map (·.line)).Nodup ∧ ∀ fix ∈ fixes, 1 ≤ fix.line ∧ fix.line ≤ Lines.count text) ∧
    (∀ out, applyFixes text fixes = .ok out → out = editedAtOnce text fixes) ∧
    ∀ fixes', fixes'.Perm fixes → ∀ out,
      applyFixes text fixes' = .ok out ↔ applyFixes text fixes = .ok out := by
  have hok : ∀ fs out, applyFixes text fs = .ok out →
      Applicable text fs ∧ out = editedAtOnce text fs := by
    intro fs out h
    have happ := applicable_of_applyFixes_ok h
    rw [applyFixes_of_applicable happ] at h
    exact ⟨happ, (Except.ok.inj h).symm⟩
  have hperm : ∀ fs fs', fs.Perm fs' → ∀ out,
      applyFixes text fs = .ok out → applyFixes text fs' = .ok out := by
    intro fs fs' hp out h
    obtain ⟨happ, rfl⟩ := hok fs out h
    rw [applyFixes_of_applicable (happ.perm hp), editedAtOnce_perm hp happ.distinct]
  refine ⟨⟨?_, ?_⟩, ?_, ?_⟩
  · rintro ⟨out, h⟩
    exact ⟨(hok fixes out h).1.distinct, (hok fixes out h).1.inRange⟩
  · rintro ⟨hdistinct, hrange⟩
    exact ⟨_, applyFixes_of_applicable ⟨hdistinct, hrange⟩⟩
  · intro out h
    exact (hok fixes out h).2
  · intro fixes' hp out
    exact ⟨hperm fixes' fixes hp out, hperm fixes fixes' hp.symm out⟩

/-- Two lines put in above a line that is replaced, with the fixes given from the top down. -/
theorem applyFixes_insert_above_replace :
    applyFixes "a\nb".toList
        [⟨.memoryLeak, 1, "a", "x\ny", .insertAfter, ""⟩, ⟨.infiniteLoop, 2, "b", "c", .replaceLine, ""⟩]
      = .ok "a\nx\ny\nc".toList := by
  obtain ⟨hiff, hout, -⟩ := applyFixes_ok_iff_editedAtOnce "a\nb".toList
    [⟨.memoryLeak, 1, "a", "x\ny", .insertAfter, ""⟩, ⟨.infiniteLoop, 2, "b", "c", .replaceLine, ""⟩]
  obtain ⟨out, h⟩ := hiff.mpr ⟨by decide, by decide⟩
  rw [h, hout out h]
  exact congrArg Except.ok (by decide)

end DefectScan.Patch
