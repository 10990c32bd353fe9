import DefectScan.Proofs.SimultaneousEdit
import Mathlib

/-!
# Why fixes are refused

Of all that can be wrong with some fixes, one thing is reported (`Refused`), and it does not depend on
the order in which they are given:

    applyFixes text fixes = .error e ↔ Refused text fixes e

A line that several fixes concern comes first, the last such line. Then a line behind the end of the
text, the last one, with the number of lines of the text. Line 0 comes last, when all other fixes have
been put in; so the number of lines that is reported with it is the one that the text has by then
(`count_applyAll`).
-/

namespace DefectScan.Patch

open Text

/-! ## Fixes that share a line -/

/-- Several fixes concern the line. -/
def Shared (fixes : List Fix) (line : Nat) : Prop := 2 ≤ (fixes.map (·.line)).count line

/-- The last of the lines that several fixes concern. -/
structure LastShared (fixes : List Fix) (line : Nat) : Prop where
  shared : Shared fixes line
  last : ∀ other, Shared fixes other → other ≤ line

theorem not_shared_of_nodup {fixes : List Fix} (h : (fixes.map (·.line)).Nodup) (line : Nat) :
    ¬ Shared fixes line := by
  have := List.nodup_iff_count_le_one.mp h line
  unfold Shared
  omega

theorem Shared.mem {fixes : List Fix} {line : Nat} (h : Shared fixes line) :
    ∃ fix ∈ fixes, fix.line = line :=
  List.mem_map.mp (List.count_pos_iff.mp (Nat.lt_of_lt_of_le Nat.two_pos h))

theorem shared_cons {fix : Fix} {line : Nat} (h : fix.line ≠ line) (fixes : List Fix) :
    Shared (fix :: fixes) line ↔ Shared fixes line := by
  rw [Shared, List.map_cons, List.count_cons_of_ne h, Shared]

/-- Of neighbours that concern one line, the first are those of the last such line. -/
theorem lastShared_of_conflict? {fixes : List Fix} {line : Nat}
    (hsorted : fixes.Pairwise fun a b => b.line ≤ a.line) (h : conflict? fixes = some line) :
    LastShared fixes line := by
  induction fixes with
  | nil => cases h
  | cons a rest ih =>
    obtain ⟨hfirst, htail⟩ := List.pairwise_cons.mp hsorted
    cases rest with
    | nil => cases h
    | cons b rest =>
      rw [conflict?] at h
      by_cases heq : a.line = b.line
      · rw [if_pos heq] at h
        cases h
        refine ⟨?_, fun other hother => ?_⟩
        · rw [Shared, List.map_cons, List.map_cons, ← heq, List.count_cons_self, List.count_cons_self]
          omega
        · obtain ⟨fix, hfix, rfl⟩ := hother.mem
          rcases List.mem_cons.mp hfix with rfl | hfix
          · exact Nat.le_refl _
          · exact hfirst fix hfix
      · rw [if_neg heq] at h
        obtain ⟨hshared, hlast⟩ := ih htail h
        have hbelow : ∀ fix ∈ b :: rest, fix.line < a.line := by
          intro fix hfix
          have hb := hfirst b List.mem_cons_self
          rcases List.mem_cons.mp hfix with rfl | hfix
          · omega
          · have := List.rel_of_pairwise_cons htail hfix
            omega
        have hne : ∀ other, Shared (b :: rest) other → a.line ≠ other := by
          intro other hother
          obtain ⟨fix, hfix, rfl⟩ := hother.mem
          exact Nat.ne_of_gt (hbelow fix hfix)
        refine ⟨(shared_cons (hne line hshared) _).mpr hshared, fun other hother => ?_⟩
        by_cases hother' : a.line = other
        · -- the line of the first fix is not among the others
          have hzero : ((b :: rest).map (·.line)).count other = 0 := by
            rw [List.count_eq_zero, List.mem_map]
            rintro ⟨fix, hfix, rfl⟩
            have := hbelow fix hfix
            omega
          rw [Shared, List.map_cons, hother', List.count_cons_self, hzero] at hother
          omega
        · exact hlast other ((shared_cons hother' _).mp hother)

/-! ## The number of lines along the fixes -/

/-- How many lines a text has more with a fix. -/
def addedLines (fix : Fix) : Nat :=
  fix.replacementText.toList.count '\n' + if fix.edit = .insertAfter then 1 else 0

theorem length_flatMap_editLine (fix : Fix) {line : List Char} (hline : '\n' ∉ line) :
    ((editLine fix line).flatMap Lines.split).length = 1 + addedLines fix := by
  have hcount := Lines.count_eq fix.replacementText.toList
  unfold Lines.count at hcount
  unfold editLine addedLines
  cases fix.edit with
  | replaceLine =>
    rw [List.flatMap_singleton, hcount, if_neg (by decide)]
    omega
  | insertAfter =>
    rw [List.flatMap_cons, List.flatMap_singleton, Lines.split_of_not_mem line hline,
      List.length_append, List.length_singleton, hcount, if_pos rfl]

theorem count_applyFix {text out : List Char} {fix : Fix} (h : applyFix text fix = .ok out) :
    Lines.count out = Lines.count text + addedLines fix := by
  obtain ⟨hpos, hle⟩ := applyFix_ok h
  simp only [applyFix] at h
  split at h
  · cases h
  · cases h
    have hno : ∀ l ∈ Lines.split text, '\n' ∉ l := fun _ => Lines.not_mem_of_mem_split
    unfold Lines.count at hle ⊢
    have hi : fix.line - 1 < (Lines.split text).length := by omega
    have hline : '\n' ∉ (Lines.split text).getD (fix.line - 1) [] := by
      rw [List.getD_eq_getElem _ _ hi]
      exact hno _ (List.getElem_mem hi)
    have hedit := length_flatMap_editLine fix hline
    rw [Lines.split_join, List.flatMap_append, List.flatMap_append,
      Lines.flatMap_split_of_not_mem fun l hl => hno l (List.mem_of_mem_take hl),
      Lines.flatMap_split_of_not_mem fun l hl => hno l (List.mem_of_mem_drop hl),
      List.length_append, List.length_append, hedit, List.length_take, List.length_drop]
    · omega
    · intro hnil
      rw [List.append_eq_nil_iff, List.append_eq_nil_iff] at hnil
      rw [hnil.1.2, List.flatMap_nil, List.length_nil] at hedit
      omega

theorem count_applyAll {text out : List Char} {fixes : List Fix} (h : applyAll text fixes = .ok out) :
    Lines.count out = Lines.count text + (fixes.map addedLines).sum := by
  induction fixes generalizing text with
  | nil =>
    cases h
    rfl
  | cons fix fixes ih =>
    rw [applyAll] at h
    split at h
    · next next hfix =>
      rw [ih h, count_applyFix hfix, List.map_cons, List.sum_cons, Nat.add_assoc]
    · cases h

/-! ## Refusals -/

/-- What is reported of fixes that are refused. -/
inductive Refused (text : List Char) (fixes : List Fix) : FixError → Prop
  /-- Several fixes concern a line, whatever else is wrong. -/
  | shared {line : Nat} : LastShared fixes line → Refused text fixes (.conflict line)
  /-- The text has fewer lines than the last line that a fix concerns. -/
  | behindEnd {fix : Fix} : (fixes.map (·.line)).Nodup → fix ∈ fixes →
    (∀ other ∈ fixes, other.line ≤ fix.line) → Lines.count text < fix.line →
    Refused text fixes (.invalidLine fix.line (Lines.count text))
  /-- A fix concerns line 0, and the others have been put in. -/
  | lineZero {fix : Fix} : (fixes.map (·.line)).Nodup → fix ∈ fixes → fix.line = 0 →
    (∀ other ∈ fixes, other.line ≤ Lines.count text) →
    Refused text fixes (.invalidLine 0
      (Lines.count text + ((fixes.filter (·.line ≠ 0)).map addedLines).sum))

theorem Refused.unique {text : List Char} {fixes : List Fix} {e e' : FixError}
    (h : Refused text fixes e) (h' : Refused text fixes e') : e = e' := by
  cases h with
  | shared hline =>
    cases h' with
    | shared hline' =>
      rw [Nat.le_antisymm (hline'.last _ hline.shared) (hline.last _ hline'.shared)]
    | behindEnd hnodup => exact absurd hline.shared (not_shared_of_nodup hnodup _)
    | lineZero hnodup => exact absurd hline.shared (not_shared_of_nodup hnodup _)
  | behindEnd hnodup hfix hlast hlt =>
    cases h' with
    | shared hline => exact absurd hline.shared (not_shared_of_nodup hnodup _)
    | behindEnd _ hfix' hlast' =>
      rw [Nat.le_antisymm (hlast' _ hfix) (hlast _ hfix')]
    | lineZero _ _ _ hrange =>
      have := hrange _ hfix
      omega
  | lineZero hnodup hfix hzero hrange =>
    cases h' with
    | shared hline => exact absurd hline.shared (not_shared_of_nodup hnodup _)
    | behindEnd _ hfix' _ hlt =>
      have := hrange _ hfix'
      omega
    | lineZero => rfl

theorem Refused.perm {text : List Char} {fixes fixes' : List Fix} {e : FixError}
    (h : Refused text fixes e) (hperm : fixes.Perm fixes') : Refused text fixes' e := by
  have hlines := hperm.map (·.line)
  cases h with
  | shared hline =>
    have hshared : ∀ line, Shared fixes' line ↔ Shared fixes line := by
      intro line
      rw [Shared, Shared, hlines.count_eq]
    exact .shared ⟨(hshared _).mpr hline.shared, fun other h => hline.last other ((hshared other).mp h)⟩
  | behindEnd hnodup hfix hlast hlt =>
    exact .behindEnd (hlines.nodup_iff.mp hnodup) (hperm.mem_iff.mp hfix)
      (fun other h => hlast other (hperm.mem_iff.mpr h)) hlt
  | lineZero hnodup hfix hzero hrange =>
    rw [((hperm.filter (·.line ≠ 0)).map addedLines).sum_eq]
    exact .lineZero (hlines.nodup_iff.mp hnodup) (hperm.mem_iff.mp hfix) hzero
      fun other h => hrange other (hperm.mem_iff.mpr h)

theorem Refused.not_applicable {text : List Char} {fixes : List Fix} {e : FixError}
    (h : Refused text fixes e) : ¬ Applicable text fixes := by
  rintro ⟨hdistinct, hrange⟩
  cases h with
  | shared hline => exact not_shared_of_nodup hdistinct _ hline.shared
  | behindEnd _ hfix _ hlt =>
    have := hrange _ hfix
    omega
  | lineZero _ hfix hzero =>
    have := hrange _ hfix
    omega

/-! ## Fixes from the bottom up -/

theorem applyAll_append {text out : List Char} {fixes : List Fix} (h : applyAll text fixes = .ok out)
    (more : List Fix) : applyAll text (fixes ++ more) = applyAll out more := by
  induction fixes generalizing text with
  | nil =>
    cases h
    rfl
  | cons fix fixes ih =>
    rw [applyAll] at h
    rw [List.cons_append, applyAll]
    split at h
    · next next hfix => exact ih h
    · cases h

theorem applyFix_of_not_inRange {text : List Char} {fix : Fix}
    (h : fix.line = 0 ∨ Lines.count text < fix.line) :
    applyFix text fix = .error (.invalidLine fix.line (Lines.count text)) := by
  simp only [applyFix]
  exact if_pos (by simpa [Lines.count] using h)

theorem nodup_of_pairwise_lt {fixes : List Fix} (h : fixes.Pairwise fun a b => b.line < a.line) :
    (fixes.map (·.line)).Nodup :=
  List.pairwise_map.mpr (h.imp fun hab => Nat.ne_of_gt hab)

/-- Line 0 is the last of the lines, and the fixes before it are put in. -/
theorem refused_of_line_zero {text : List Char} {fixes : List Fix} {e : FixError} {fix : Fix}
    (hsorted : fixes.Pairwise fun a b => b.line < a.line) (hfix : fix ∈ fixes) (hzero : fix.line = 0)
    (hrange : ∀ f ∈ fixes, f.line ≤ Lines.count text) (h : applyAll text fixes = .error e) :
    Refused text fixes e := by
  have hrefused := Refused.lineZero (nodup_of_pairwise_lt hsorted) hfix hzero hrange
  obtain ⟨others, below, rfl⟩ := List.append_of_mem hfix
  obtain ⟨hothers, hbelow, habove⟩ := List.pairwise_append.mp hsorted
  have hnil : below = [] := by
    refine List.eq_nil_iff_forall_not_mem.mpr fun f hf => ?_
    have := List.rel_of_pairwise_cons hbelow hf
    omega
  subst hnil
  have hpos : ∀ f ∈ others, f.line ≠ 0 := by
    intro f hf
    have := habove f hf fix List.mem_cons_self
    omega
  have hfilter : (others ++ [fix]).filter (·.line ≠ 0) = others := by
    rw [List.filter_append, List.filter_eq_self.mpr (by simpa using hpos)]
    simp [hzero]
  have happlicable : Applicable text others :=
    ⟨nodup_of_pairwise_lt hothers, fun f hf =>
      ⟨Nat.pos_of_ne_zero (hpos f hf), hrange f (List.mem_append_left _ hf)⟩⟩
  have hok := applyAll_of_applicable hothers happlicable
  rw [applyAll_append hok, applyAll, applyFix_of_not_inRange (.inl hzero), hzero,
    count_applyAll hok] at h
  rw [hfilter] at hrefused
  cases h
  exact hrefused

theorem refused_of_applyAll_error {text : List Char} {fixes : List Fix} {e : FixError}
    (hsorted : fixes.Pairwise fun a b => b.line < a.line) (h : applyAll text fixes = .error e) :
    Refused text fixes e := by
  cases fixes with
  | nil => cases h
  | cons first rest =>
    have hlast : ∀ f ∈ first :: rest, f.line ≤ first.line := by
      intro f hf
      rcases List.mem_cons.mp hf with rfl | hf
      · exact Nat.le_refl _
      · exact Nat.le_of_lt (List.rel_of_pairwise_cons hsorted hf)
    by_cases hend : Lines.count text < first.line
    · rw [applyAll, applyFix_of_not_inRange (.inr hend)] at h
      cases h
      exact .behindEnd (nodup_of_pairwise_lt hsorted) List.mem_cons_self hlast hend
    · have hrange : ∀ f ∈ first :: rest, f.line ≤ Lines.count text := by
        intro f hf
        have := hlast f hf
        omega
      by_cases hzero : ∃ f ∈ first :: rest, f.line = 0
      · obtain ⟨f, hf, hzero⟩ := hzero
        exact refused_of_line_zero hsorted hf hzero hrange h
      · have happlicable : Applicable text (first :: rest) :=
          ⟨nodup_of_pairwise_lt hsorted, fun f hf =>
            ⟨Nat.pos_of_ne_zero fun h0 => hzero ⟨f, hf, h0⟩, hrange f hf⟩⟩
        rw [applyAll_of_applicable hsorted happlicable] at h
        cases h

/-! ## Main result -/

theorem refused_of_applyFixes_error {text : List Char} {fixes : List Fix} {e : FixError}
    (h : applyFixes text fixes = .error e) : Refused text fixes e := by
  have hsorted := bottomUp_pairwise fixes
  refine Refused.perm ?_ (bottomUp_perm fixes)
  simp only [applyFixes] at h
  split at h
  · next line hline =>
    cases h
    exact .shared (lastShared_of_conflict? hsorted hline)
  · next hnone =>
    exact refused_of_applyAll_error ((conflict?_eq_none_iff hsorted).mp hnone) h

theorem applyFixes_error_iff {text : List Char} {fixes : List Fix} {e : FixError} :
    applyFixes text fixes = .error e ↔ Refused text fixes e := by
  refine ⟨refused_of_applyFixes_error, fun h => ?_⟩
  cases hresult : applyFixes text fixes with
  | ok out => exact absurd (applicable_of_applyFixes_ok hresult) h.not_applicable
  | error e' => rw [h.unique (refused_of_applyFixes_error hresult)]

/-- Fixes are refused for the last line that several of them concern; otherwise for the last line of
all, if it lies behind the end of the text, with the number of lines of the text; and otherwise for
line 0, with the number of lines that the text has once the other fixes have been put in. The order of
the fixes makes no difference. -/
theorem applyFixes_error_iff_refused (text : List Char) (fixes : List Fix) :
    (∀ e, applyFixes text fixes = .error e ↔ Refused text fixes e) ∧
      ∀ fixes', fixes'.Perm fixes → ∀ e,
        applyFixes text fixes' = .error e ↔ applyFixes text fixes = .error e := by
  refine ⟨fun e => applyFixes_error_iff, fun fixes' hperm e => ?_⟩
  rw [applyFixes_error_iff, applyFixes_error_iff]
  exact ⟨fun h => h.perm hperm, fun h => h.perm hperm.symm⟩

/-- A line put in behind the first, and a fix for line 0. -/
def insertAndZero : List Fix :=
  [⟨.memoryLeak, 1, "a", "x", .insertAfter, ""⟩, ⟨.memoryLeak, 0, "", "y", .replaceLine, ""⟩]

theorem refused_insertAndZero : Refused "a\nb".toList insertAndZero (.invalidLine 0 3) :=
  .lineZero (by decide) (List.mem_cons_of_mem _ List.mem_cons_self) rfl (by decide)

theorem applyFixes_error_iff_refused_reversed :
    insertAndZero.reverse.Perm insertAndZero ∧
      applyFixes "a\nb".toList insertAndZero.reverse = .error (.invalidLine 0 3) := by
  obtain ⟨hiff, hperm⟩ := applyFixes_error_iff_refused "a\nb".toList insertAndZero
  have hreverse := List.reverse_perm insertAndZero
  exact ⟨hreverse, (hperm _ hreverse _).mpr ((hiff _).mpr refused_insertAndZero)⟩

/-- The number of lines that is reported is not that of the text that was given. -/
theorem refused_counts_inserted_line :
    Lines.count "a\nb".toList = 2 ∧
      applyFixes "a\nb".toList insertAndZero = .error (.invalidLine 0 3) ∧
      (FixError.invalidLine 0 3).message = "line 0 out of range (source has 3 lines)" :=
  ⟨by decide, applyFixes_error_iff.mpr refused_insertAndZero, by decide⟩

end DefectScan.Patch
