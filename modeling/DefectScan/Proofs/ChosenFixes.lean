import DefectScan.CommandLine.Run
import DefectScan.Proofs.SimultaneousEdit

/-!
# The fixes that are chosen always apply

A report may propose several fixes for one line. The first of each line are chosen (`firstPerLine`),
and what they make of the text can be said of the report alone:

    applyFixes text (firstPerLine r.fixes) = .ok (editedAtOnce text r.fixes)

It never fails. A fix is proposed only for a line that the text has (`fixAt_eq_some`), whatever the
detectors have put into their findings, and no two chosen fixes concern one line
(`nodup_firstPerLine`).
-/

namespace DefectScan

open Text

/-! ## Where a fix is proposed -/

theorem Text.Lines.numbered?_eq_some {text line : List Char} {n : Nat}
    (h : numbered? text n = some line) : 1 ≤ n ∧ n ≤ count text := by
  unfold numbered? at h
  split at h
  · cases h
  · have hlt := (List.getElem?_eq_some_iff.mp h).1
    unfold count
    omega

namespace Proposal

theorem fixAt_eq_some {category : Category} {line : Nat} {text : String} {fix : Fix}
    (h : fixAt category line text = some fix) :
    fix.category = category ∧ fix.line = line ∧ 1 ≤ line ∧ line ≤ Lines.count text.toList := by
  obtain ⟨current, c, hcurrent, -, rfl⟩ := fixAt_eq_some_iff.mp h
  exact ⟨rfl, rfl, Lines.numbered?_eq_some hcurrent⟩

end Proposal

theorem Report.inRange_of_mem_fixes {name text : String} {found : List Finding} {fix : Fix}
    (h : fix ∈ (ofFindings name text found).fixes) :
    1 ≤ fix.line ∧ fix.line ≤ Lines.count text.toList := by
  simp only [fixes, ofFindings, List.mem_filterMap, List.mem_map] at h
  obtain ⟨item, ⟨f, -, rfl⟩, hfix⟩ := h
  obtain ⟨-, hline, hrange⟩ := Proposal.fixAt_eq_some hfix
  rw [hline]
  exact hrange

/-! ## The first fix of each line -/

namespace CommandLine

theorem firstPerLine_go_sublist (fixes : List Fix) (seen : List Nat) :
    (firstPerLine.go seen fixes).Sublist fixes := by
  induction fixes generalizing seen with
  | nil => exact List.Sublist.slnil
  | cons f rest ih =>
    rw [firstPerLine.go]
    split
    · exact (ih seen).cons f
    · exact (ih (f.line :: seen)).cons_cons f

theorem line_not_mem_of_mem_go {fixes : List Fix} {seen : List Nat} {fix : Fix}
    (h : fix ∈ firstPerLine.go seen fixes) : fix.line ∉ seen := by
  induction fixes generalizing seen with
  | nil => cases h
  | cons f rest ih =>
    rw [firstPerLine.go] at h
    split at h
    · exact ih h
    · next hseen =>
      rcases List.mem_cons.mp h with rfl | h
      · simpa using hseen
      · intro hmem
        exact ih h (List.mem_cons_of_mem _ hmem)

theorem nodup_firstPerLine_go (fixes : List Fix) (seen : List Nat) :
    ((firstPerLine.go seen fixes).map (·.line)).Nodup := by
  induction fixes generalizing seen with
  | nil => exact List.nodup_nil
  | cons f rest ih =>
    rw [firstPerLine.go]
    split
    · exact ih seen
    · rw [List.map_cons, List.nodup_cons]
      refine ⟨?_, ih (f.line :: seen)⟩
      intro hmem
      obtain ⟨g, hg, hline⟩ := List.mem_map.mp hmem
      exact line_not_mem_of_mem_go hg (by simp [hline])

theorem find?_firstPerLine_go (fixes : List Fix) {seen : List Nat} {n : Nat} (hn : n ∉ seen) :
    (firstPerLine.go seen fixes).find? (·.line = n) = fixes.find? (·.line = n) := by
  induction fixes generalizing seen with
  | nil => rfl
  | cons f rest ih =>
    rw [firstPerLine.go]
    by_cases hf : f.line = n
    · have hseen : ¬ seen.contains f.line = true := by simpa [hf] using hn
      rw [if_neg hseen, List.find?_cons_of_pos (by simpa using hf),
        List.find?_cons_of_pos (by simpa using hf)]
    · rw [List.find?_cons_of_neg (by simpa using hf)]
      split
      · exact ih hn
      · rw [List.find?_cons_of_neg (by simpa using hf)]
        apply ih
        intro hmem
        rcases List.mem_cons.mp hmem with hline | hmem
        · exact hf hline.symm
        · exact hn hmem

theorem firstPerLine_sublist (fixes : List Fix) : (firstPerLine fixes).Sublist fixes :=
  firstPerLine_go_sublist fixes []

theorem nodup_firstPerLine (fixes : List Fix) : ((firstPerLine fixes).map (·.line)).Nodup :=
  nodup_firstPerLine_go fixes []

/-- The fix that is chosen for a line is the first that was proposed for it. -/
theorem find?_firstPerLine (fixes : List Fix) (n : Nat) :
    (firstPerLine fixes).find? (·.line = n) = fixes.find? (·.line = n) :=
  find?_firstPerLine_go fixes List.not_mem_nil

theorem editedAtOnce_firstPerLine (text : List Char) (fixes : List Fix) :
    Patch.editedAtOnce text (firstPerLine fixes) = Patch.editedAtOnce text fixes := by
  simp only [Patch.editedAtOnce, Patch.editedFrom, Patch.editedLine, find?_firstPerLine]

end CommandLine

/-! ## Reports -/

namespace Engine

theorem findings?_eq_none_iff {parallel : Bool} {d : Detector} {text : String} :
    findings? parallel d text = none ↔ parallel = false ∧ d.detect text = .brokeDown := by
  unfold findings?
  cases hd : d.detect text <;> cases parallel <;> simp

theorem isSome_mapM_iff {α β : Type} (f : α → Option β) (l : List α) :
    (∃ bs, l.mapM f = some bs) ↔ ∀ a ∈ l, f a ≠ none := by
  induction l with
  | nil => simp
  | cons a l ih =>
    rw [List.mapM_cons, List.forall_mem_cons, ← ih]
    cases ha : f a with
    | none => simp
    | some b => cases l.mapM f <;> simp

/-- Only a detector that breaks down in sequence leaves no report. -/
theorem exists_report?_iff (e : Engine) (name text : String) :
    (∃ r, e.report? name text = some r) ↔
      e.parallel = true ∨ ∀ d ∈ e.detectors, d.detect text ≠ .brokeDown := by
  have hmapM := isSome_mapM_iff (fun d => findings? e.parallel d text) e.detectors
  simp only [ne_eq, findings?_eq_none_iff] at hmapM
  unfold report? analyze?
  constructor
  · rintro ⟨r, hr⟩
    simp only [Option.map_eq_some_iff] at hr
    obtain ⟨fs, ⟨fss, hfss, -⟩, -⟩ := hr
    have hall := hmapM.mp ⟨fss, hfss⟩
    cases hp : e.parallel with
    | true => exact Or.inl rfl
    | false =>
      right
      intro d hd hbroken
      exact hall d hd ⟨hp, hbroken⟩
  · intro h
    obtain ⟨fss, hfss⟩ := hmapM.mpr (by
      rintro d hd ⟨hp, hbroken⟩
      rcases h with hpar | hno
      · rw [hp] at hpar
        cases hpar
      · exact hno d hd hbroken)
    exact ⟨_, by rw [hfss]; rfl⟩

theorem report?_eq_some {e : Engine} {name text : String} {r : Report}
    (h : e.report? name text = some r) : ∃ found, r = .ofFindings name text found := by
  obtain ⟨found, -, hr⟩ := Option.map_eq_some_iff.mp h
  exact ⟨found, hr.symm⟩

end Engine

/-! ## Main result -/

namespace CommandLine

open Patch

theorem applicable_firstPerLine (name text : String) (found : List Finding) :
    Applicable text.toList (firstPerLine (Report.ofFindings name text found).fixes) where
  distinct := nodup_firstPerLine _
  inRange _ hfix := Report.inRange_of_mem_fixes ((firstPerLine_sublist _).subset hfix)

/-- Whatever detectors an engine has, a report is missing only if one of them breaks down in
sequence. From any report the first fix of each line is chosen, in the order of the report. These
fixes always apply and always give a patch, and every line becomes what the first fix proposed for
it makes of it, or stays. -/
theorem patch_firstPerLine (e : Engine) (name text : String) :
    ((∃ r, e.report? name text = some r) ↔
      e.parallel = true ∨ ∀ d ∈ e.detectors, d.detect text ≠ .brokeDown) ∧
    ∀ r, e.report? name text = some r →
      ((firstPerLine r.fixes).Sublist r.fixes ∧ ((firstPerLine r.fixes).map (·.line)).Nodup ∧
        ∀ n, (firstPerLine r.fixes).find? (·.line = n) = r.fixes.find? (·.line = n)) ∧
      applyFixes text.toList (firstPerLine r.fixes) = .ok (editedAtOnce text.toList r.fixes) ∧
      ∀ path, patch path text.toList (firstPerLine r.fixes)
        = .ok (("--- a/" ++ path ++ "\n+++ b/" ++ path ++ "\n").toList
          ++ unified text.toList (editedAtOnce text.toList r.fixes)) := by
  refine ⟨e.exists_report?_iff name text, ?_⟩
  intro r hr
  obtain ⟨found, rfl⟩ := Engine.report?_eq_some hr
  have happly := applyFixes_of_applicable (applicable_firstPerLine name text found)
  rw [editedAtOnce_firstPerLine] at happly
  refine ⟨⟨firstPerLine_sublist _, nodup_firstPerLine _, find?_firstPerLine _⟩, happly, ?_⟩
  intro path
  simp only [patch, happly]

/-- Two fixes proposed for line 1, a finding on a line that is not there, and a detector that
fails. -/
theorem patch_firstPerLine_clash :
    ∃ e : Engine, ∃ r, (∃ d ∈ e.detectors, d.detect "p->n; int y;\nint x;" = .failed .noTree) ∧
      e.report? "a.c" "p->n; int y;\nint x;" = some r ∧ r.items.length = 5 ∧
      r.fixes.map (·.line) = [1, 1, 2] ∧
      applyFixes "p->n; int y;\nint x;".toList (firstPerLine r.fixes)
        = .ok "if (p != NULL) \x7b\n    p->n; int y;\n\x7d\nint x = 0;".toList := by
  let found : List Finding :=
    [.atLine .nullPointer 1 "" .lexical, .atLine .uninitializedVar 1 "" .lexical,
      .atLine .memoryLeak 9 "" .lexical, .atLine .uninitializedVar 2 "" .lexical]
  let e : Engine :=
    ⟨[⟨"stub", fun _ => .found found⟩, ⟨"broken", fun _ => .failed .noTree⟩], false⟩
  obtain ⟨-, hreport⟩ := patch_firstPerLine e "a.c" "p->n; int y;\nint x;"
  refine ⟨e, _, ⟨_, List.mem_cons_of_mem _ List.mem_cons_self, rfl⟩, rfl, by decide +kernel,
    by decide +kernel, ?_⟩
  rw [(hreport _ rfl).2.1]
  exact congrArg Except.ok (by decide +kernel)

end CommandLine

end DefectScan
