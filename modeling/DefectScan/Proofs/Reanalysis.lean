import DefectScan.Proofs.ConditionalLoops
import DefectScan.Proofs.InitialisedDeclarations
import DefectScan.Proofs.ReportShape

/-!
# Scanning again behind a fix

A scan behind a fix that gives loops a condition or variables a value finds fewer defects of the
category, on lines that were reported before:

    linesOf f.category (the text with the fix) is a shorter sublist of linesOf f.category text

For declarations the finding has to be on one line. A declaration that runs over the end of its line
is not changed, and the line may get a fix for another that was not reported.
-/

namespace DefectScan

open Text

/-! ## What is reported -/

namespace Lexical

open Pattern

/-- The lines of the findings of a category. -/
def linesOf (category : Category) (text : String) : List Nat :=
  ((scan text).filter (·.category = category)).map (·.line)

theorem mem_linesOf_iff {category : Category} {text : String} {n : Nat} :
    n ∈ linesOf category text ↔ ∃ f ∈ scan text, f.category = category ∧ f.line = n := by
  simp [linesOf, and_assoc]

/-- A finding that a rule makes on an occurrence in a text. -/
def ReportedAt (text : String) (f : Finding) (o : Occurrence) : Prop :=
  ∃ r ∈ rules, o ∈ r.pattern.occurrences text.toList ∧ r.discards o = false ∧ f = r.finding o

theorem mem_scan_iff {text : String} {f : Finding} : f ∈ scan text ↔ ∃ o, ReportedAt text f o := by
  simp only [scan, Rule.findings, List.mem_flatMap, List.mem_map, List.mem_filter, ReportedAt,
    Bool.not_eq_true']
  constructor
  · rintro ⟨r, hr, o, ⟨ho, hkeep⟩, rfl⟩
    exact ⟨o, r, hr, ho, hkeep, rfl⟩
  · rintro ⟨o, r, hr, ho, hkeep, rfl⟩
    exact ⟨r, hr, o, ⟨ho, hkeep⟩, rfl⟩

theorem rule_eq_of_category {r s : Rule} (hr : r ∈ rules) (hs : s ∈ rules)
    (h : r.category = s.category) : r = s := by
  simp only [rules, List.mem_cons, List.not_mem_nil, or_false] at hr hs
  rcases hr with rfl | rfl | rfl | rfl | rfl <;>
    rcases hs with rfl | rfl | rfl | rfl | rfl <;> first | rfl | cases h

theorem ReportedAt.of_rule {text : String} {f : Finding} {o : Occurrence} (h : ReportedAt text f o)
    {r : Rule} (hr : r ∈ rules) (hcategory : f.category = r.category) :
    o ∈ r.pattern.occurrences text.toList ∧ r.discards o = false ∧ o.line = f.line := by
  obtain ⟨s, hs, ho, hkeep, rfl⟩ := h
  obtain rfl := rule_eq_of_category hs hr hcategory
  exact ⟨ho, hkeep, rfl⟩

/-- An occurrence on the line of a finding of the category is reported with the same finding. -/
theorem reportedAt_of_line {text : String} {f : Finding} (hf : f ∈ scan text) {r : Rule}
    (hr : r ∈ rules) (hcategory : f.category = r.category) {o : Occurrence}
    (ho : o ∈ r.pattern.occurrences text.toList) (hkeep : r.discards o = false)
    (hline : o.line = f.line) : ReportedAt text f o := by
  obtain ⟨o', s, hs, -, -, rfl⟩ := mem_scan_iff.mp hf
  obtain rfl := rule_eq_of_category hs hr hcategory
  refine ⟨s, hs, ho, hkeep, ?_⟩
  have hline' : o.line = o'.line := hline
  rw [Rule.finding, Rule.finding, hline']

theorem filter_findings (r : Rule) (category : Category) (text : List Char) :
    (r.findings text).filter (·.category = category)
      = if r.category = category then r.findings text else [] := by
  split
  · next h =>
    exact List.filter_eq_self.mpr fun f hf => decide_eq_true ((of_mem_findings hf).1.trans h)
  · next h =>
    refine List.filter_eq_nil_iff.mpr fun f hf => ?_
    rw [(of_mem_findings hf).1]
    simpa using h

/-- Each category has one rule. -/
theorem linesOf_eq {r : Rule} (hr : r ∈ rules) (text : String) :
    linesOf r.category text
      = ((r.pattern.occurrences text.toList).filter fun o => !r.discards o).map Occurrence.line := by
  have hfindings : (scan text).filter (·.category = r.category) = r.findings text.toList := by
    simp only [rules, List.mem_cons, List.not_mem_nil, or_false] at hr
    rcases hr with rfl | rfl | rfl | rfl | rfl <;>
      simp [scan, rules, filter_findings]
  rw [linesOf, hfindings, Rule.findings, List.map_map]
  rfl

theorem loopRule_mem : ⟨.infiniteLoop, endlessLoop, fun _ => false⟩ ∈ rules := by simp [rules]

theorem declarationRule_mem : ⟨.uninitializedVar, bareDeclaration, isAssigned⟩ ∈ rules := by
  simp [rules]

theorem linesOf_infiniteLoop (text : String) :
    linesOf .infiniteLoop text = linesWhere (endlessLoop.reports fun _ => true) [] text.toList := by
  rw [← map_line_filter_occurrencesFrom endlessLoop_spells.lawful endlessLoop_spells.consuming
    endlessLoop_selfAvoiding]
  exact linesOf_eq loopRule_mem text

theorem linesOf_uninitializedVar (text : String) :
    linesOf .uninitializedVar text
      = linesWhere (bareDeclaration.reports Proposal.unassigned) [] text.toList := by
  rw [← map_line_filter_occurrencesFrom bareDeclaration_spells.lawful
    bareDeclaration_spells.consuming bareDeclaration_selfAvoiding]
  exact linesOf_eq declarationRule_mem text

end Lexical

namespace Proposal

open Lexical Pattern Patch Text.Lines

/-! ## Loops -/

theorem endlessLoop_read_newline (t : List Char) : endlessLoop.read ('\n' :: t) = none := rfl

/-- The loops behind the one that was given a condition were there before. -/
theorem behind_loop_sublist {front loop middle blank back : List Char} (hplain : '\n' ∉ loop)
    (hparen : ∃ t, loop = t ++ [')']) (hblank : '\n' ∉ blank)
    (hback : back = [] ∨ ∃ t, back = '\n' :: t) :
    (linesWhere (endlessLoop.reports fun _ => true) (conditionText.reverse ++ front) middle
        ++ linesWhere (endlessLoop.reports fun _ => true)
          (loopComment.reverse ++ (middle.reverse ++ (conditionText.reverse ++ front))) back).Sublist
      (linesWhere (endlessLoop.reports fun _ => true) (loop.reverse ++ front)
        (middle ++ (blank ++ back))) := by
  have hcount : (conditionText.reverse ++ front).count '\n' = (loop.reverse ++ front).count '\n' := by
    have hcondition : conditionText.count '\n' = 0 := by decide
    simp [hcondition, List.count_eq_zero.mpr hplain]
  have hword : wordBehind (conditionText.reverse ++ front) = wordBehind (loop.reverse ++ front) := by
    obtain ⟨t, rfl⟩ := hparen
    rw [List.reverse_append]
    rfl
  have hmiddle : (linesWhere (endlessLoop.reports fun _ => true) (conditionText.reverse ++ front)
      middle).Sublist (linesWhere (fun behind text =>
        endlessLoop.reports (fun _ => true) behind (text ++ (blank ++ back)))
          (loop.reverse ++ front) middle) := by
    apply linesWhere_sublist middle hcount
    intro a b _ _ hreports
    rw [endlessLoop.reports_congr (wordBehind_append_congr hword _)] at hreports
    obtain ⟨hit, hread, -⟩ := exists_of_reports hreports
    exact reports_of_readAt (endlessLoop_spells.readAt_extend hread (blank ++ back))
  have hend : linesWhere (endlessLoop.reports fun _ => true)
        (loopComment.reverse ++ (middle.reverse ++ (conditionText.reverse ++ front))) back
      = linesWhere (endlessLoop.reports fun _ => true)
        (blank.reverse ++ (middle.reverse ++ (loop.reverse ++ front))) back := by
    apply linesWhere_back endlessLoop_read_newline hback
    have hcomment : loopComment.count '\n' = 0 := by decide
    rw [List.count_append, List.count_append, hcount]
    simp [hcomment, List.count_eq_zero.mpr hblank]
  rw [linesWhere_append, linesWhere_append _ _ blank, hend]
  exact hmiddle.append (List.sublist_append_right _ _)

theorem conditional_lines {text line front back : List Char} {n : Nat} {c : Change}
    (hat : LineAt text n line front back) (h : conditional line = some c) :
    (linesWhere (endlessLoop.reports fun _ => true) [] (front ++ (c.text ++ back))).Sublist
        (linesWhere (endlessLoop.reports fun _ => true) [] text) ∧
      (linesWhere (endlessLoop.reports fun _ => true) [] (front ++ (c.text ++ back))).length
        < (linesWhere (endlessLoop.reports fun _ => true) [] text).length := by
  obtain ⟨before, loop, middle, blank, hloop, hword, -, rfl, htext, -⟩ := exists_of_conditional h
  have hplain := hat.plain
  simp only [List.mem_append, not_or] at hplain
  have hstart : wordBehind ((front ++ before).reverse ++ []) = false := by
    rw [List.append_nil, List.reverse_append,
      wordBehind_append_congr (hat.wordBehind_front.trans wordBehind_nil.symm), List.append_nil]
    exact hword
  have hbefore := linesWhere_loop endlessLoop_spells id (Or.inl hloop : LoopText loop [])
    hloop.head_eq hstart (middle ++ (blank ++ back))
  have hafter := linesWhere_conditional endlessLoop_spells id [] (front ++ before) middle back
  have hbehind := @behind_loop_sublist ((front ++ before).reverse ++ []) loop middle blank back
    hplain.2.1 (LoopText.letters (Or.inl hloop)).2 hplain.2.2.2 hat.back_start
  have hold : text = (front ++ before) ++ (loop ++ (middle ++ (blank ++ back))) := by
    rw [hat.parts]
    simp
  have hnew : front ++ (c.text ++ back)
      = (front ++ before) ++ (conditionText ++ (middle ++ (loopComment ++ back))) := by
    rw [htext]
    simp
  rw [hold, hnew, hbefore, hafter]
  have hlength := hbehind.length_le
  simp only [List.length_append, List.length_cons] at hlength ⊢
  exact ⟨(List.Sublist.refl _).append (hbehind.cons _), by omega⟩

/-! ## Declarations -/

/-- A declaration on one line that was reported is among those that are given a value. -/
theorem initialise_lines {text line front back : List Char} {n : Nat} {o : Occurrence} {c : Change}
    (hat : LineAt text n line front back) (ho : o ∈ bareDeclaration.occurrences text)
    (hassigned : isAssigned o = false) (hline : o.line = n) (hmatched : '\n' ∉ o.matched)
    (h : initialise line = some c) :
    (linesWhere (bareDeclaration.reports unassigned) [] (front ++ (c.text ++ back))).Sublist
        (linesWhere (bareDeclaration.reports unassigned) [] text) ∧
      (linesWhere (bareDeclaration.reports unassigned) [] (front ++ (c.text ++ back))).length
        < (linesWhere (bareDeclaration.reports unassigned) [] text).length := by
  obtain ⟨pre, post, hbehind, hpost, hafter⟩ :=
    hat.exists_of_occurrence bareDeclaration_spells.lawful ho hline hmatched
  obtain ⟨hword, m, hm, hm'⟩ := bareDeclaration_spells.readAt_iff.mp
    (readAt_of_mem_occurrencesFrom bareDeclaration_spells.lawful ho)
  obtain rfl := List.append_cancel_right hm'
  -- the declaration can be read in the line alone
  have hstart : wordBehind (pre.reverse ++ []) = false := by
    rw [wordBehind_append_congr (wordBehind_nil.trans hat.wordBehind_front.symm), ← hbehind]
    exact hword
  have hread : bareDeclaration.readAt (pre.reverse ++ []) (o.matched ++ post)
      = some ⟨o.captured, post⟩ :=
    bareDeclaration_spells.readAt_iff.mpr ⟨hstart, o.matched, hm, rfl⟩
  have hreported : bareDeclaration.reports (fun rest => unassigned (rest ++ back)) (pre.reverse ++ [])
      (o.matched ++ post) = true := by
    rw [reports_of_readAt hread, ← hafter, unassigned]
    exact (congrArg not hassigned :)
  have hpos := List.length_pos_iff.mpr (linesWhere_ne_nil
    (List.append_ne_nil_of_left_ne_nil (bareDeclaration_spells.ne_nil hm) post) hreported)
  rw [← hpost] at hpos
  have hinit := initialised_of_rewrites (rewrites_of_initialise h).1 hat.plain
    hat.wordBehind_front back
  rw [← List.append_nil front.reverse] at hinit
  obtain ⟨hlines, hlength⟩ := hinit.append.lines_sublist (Eq.refl (([] : List Char).count '\n')) rfl
  rw [← hat.parts] at hlines hlength
  exact ⟨hlines, by omega⟩

/-! ## Main result -/

/-- Behind a fix for a loop, or for a declaration on one line, a scan makes fewer findings of the
category, and none on a line that was not reported before. -/
theorem linesOf_sublist_of_fixFor {f : Finding} {text : String} {fix : Fix}
    (hcategory : f.category = .infiniteLoop ∨
      f.category = .uninitializedVar ∧ ∃ o, ReportedAt text f o ∧ '\n' ∉ o.matched)
    (hfix : fixFor f text = some fix) :
    ∃ out, applyFix text.toList fix = .ok out ∧
      (linesOf f.category (String.ofList out)).Sublist (linesOf f.category text) ∧
      (linesOf f.category (String.ofList out)).length < (linesOf f.category text).length := by
  obtain ⟨line, front, back, c, hat, hchange, -, happly⟩ := exists_lineAt_of_fixFor hfix
  refine ⟨_, happly, ?_⟩
  rcases hcategory with hloop | ⟨hvariable, o, ho, hmatched⟩
  · rw [hloop] at hchange ⊢
    have hedit : c.edit = .replaceLine := by
      obtain ⟨-, -, -, -, -, -, -, -, -, hedit⟩ := exists_of_conditional hchange
      exact hedit
    rw [linesOf_infiniteLoop, linesOf_infiniteLoop, String.toList_ofList, hedit]
    exact conditional_lines hat hchange
  · obtain ⟨hmem, hkeep, hline⟩ := ho.of_rule declarationRule_mem hvariable
    rw [hvariable] at hchange ⊢
    rw [linesOf_uninitializedVar, linesOf_uninitializedVar, String.toList_ofList,
      (rewrites_of_initialise hchange).2]
    exact initialise_lines hat hmem hkeep hline hmatched hchange

def declarationsText : String := "int i\n;\nint a; int b; b = 1;\nint c;"

/-- Of two declarations on a line one was reported, and both are given a value. -/
theorem linesOf_shared_line :
    linesOf .uninitializedVar declarationsText = [1, 3, 4] ∧
      ∃ f ∈ scan declarationsText, ∃ fix out, f.line = 3 ∧ fixFor f declarationsText = some fix ∧
        applyFix declarationsText.toList fix = .ok out ∧
        (linesOf f.category (String.ofList out)).Sublist (linesOf f.category declarationsText) ∧
        (linesOf f.category (String.ofList out)).length
          < (linesOf f.category declarationsText).length := by
  have hlines : linesOf .uninitializedVar declarationsText = [1, 3, 4] := by decide +kernel
  have hsome : ((bareDeclaration.occurrences declarationsText.toList).any fun o =>
      !isAssigned o && o.line = 3 && !o.matched.contains '\n') = true := by decide +kernel
  obtain ⟨o, hmem, ho⟩ := List.any_eq_true.mp hsome
  simp only [Bool.and_eq_true, Bool.not_eq_true', decide_eq_true_eq] at ho
  obtain ⟨⟨hkeep, hline⟩, hmatched⟩ := ho
  have hreported : ReportedAt declarationsText _ o := ⟨_, declarationRule_mem, hmem, hkeep, rfl⟩
  have hfixed : (fixAt .uninitializedVar 3 declarationsText).isSome = true := by decide +kernel
  rw [← hline] at hfixed
  obtain ⟨fix, hfix⟩ := Option.isSome_iff_exists.mp hfixed
  obtain ⟨out, happly, hsublist, hlength⟩ := linesOf_sublist_of_fixFor
    (Or.inr ⟨rfl, o, hreported, by simpa using hmatched⟩) hfix
  exact ⟨hlines, _, mem_scan_iff.mpr ⟨o, hreported⟩, fix, out, hline, hfix, happly, hsublist, hlength⟩

end Proposal

end DefectScan
