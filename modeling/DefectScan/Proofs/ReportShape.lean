import DefectScan.Proofs.ChosenFixes
import DefectScan.Proofs.DocumentOrder
import DefectScan.Proofs.Occurrences
import DefectScan.Proofs.TrainingData

/-!
# The shape of a report

Every finding of a standard engine has one of five origins (`Origin`): a lexical rule, a function
without a return, a fault of the syntax, a detector that failed, or the classifier. What can be
relied on in an item of a report is read off its origin (`Origin.wellFormed`), and the order of the
findings off the order of the detectors:

    lexical, rule by rule and down the text; then structural; then classifier

This holds for every choice of detectors, every state of the classifier and every text
(`report?_standard_wellFormed`).
-/

namespace DefectScan

open Text

/-! ## Items and their order -/

/-- The categories of the lexical rules, in the order of reporting. -/
def Lexical.categories : List Category :=
  [.memoryLeak, .bufferOverflow, .nullPointer, .uninitializedVar, .infiniteLoop]

/-- What can be relied on in an item of a report on a text. -/
structure Report.Item.WellFormed (text : String) (i : Report.Item) : Prop where
  severity : i.finding.severity = i.finding.category.severity
  confidence : i.finding.confidence.isSome = true ↔ i.finding.detector = .classifier
  lexical : i.finding.detector = .lexical → i.finding.category ∈ Lexical.categories ∧
    1 ≤ i.finding.line ∧ i.finding.line ≤ Lines.count text.toList
  structural : i.finding.detector = .structural →
    i.finding.category = .missingReturn ∧ 1 ≤ i.finding.line ∨
      i.finding.category = .syntaxError ∧ i.finding.line = 0
  wholeFile : i.finding.detector = .classifier ∨ i.finding.detector = .engine → i.finding.line = 0
  fix : ∀ fix, i.fix = some fix → i.finding.detector = .lexical ∧
    fix.category = i.finding.category ∧ fix.line = i.finding.line

/-- The turn of a detector. A detector that failed is reported in its turn, and among the standard
detectors only the structural one can fail. -/
def DetectorKind.turn : DetectorKind → Nat
  | lexical => 0
  | structural | engine => 1
  | classifier => 2

/-- Whether a finding may stand before another: by the turns of their detectors, and among lexical
findings by the order of the rules and by lines within one rule. -/
def Finding.MayPrecede (a b : Finding) : Prop :=
  a.detector.turn < b.detector.turn ∨ a.detector.turn = b.detector.turn ∧
    (a.detector = .lexical →
      Lexical.categories.idxOf a.category < Lexical.categories.idxOf b.category ∨
        a.category = b.category ∧ a.line ≤ b.line)

/-- Structural findings are one syntax error or functions without a return, never both. -/
def OneFaultOrFunctions (found : List Finding) : Prop :=
  (∃ f, found = [f] ∧ f.category = .syntaxError) ∨ ∀ f ∈ found, f.category = .missingReturn

/-! ## Origins -/

/-- Where a finding of a standard engine comes from. -/
inductive Origin (text : String) : Finding → Prop
  | rule {r : Lexical.Rule} {line : Nat} (hr : r ∈ Lexical.rules) (hpos : 1 ≤ line)
      (hle : line ≤ Lines.count text.toList) (description : String) :
      Origin text (.atLine r.category line description .lexical)
  | function (row : Nat) (description : String) :
      Origin text (.atLine .missingReturn (row + 1) description .structural)
  | fault (description : String) : Origin text (.atLine .syntaxError 0 description .structural)
  | failure (name : String) (e : DetectError) : Origin text (Engine.failure name e)
  | prediction (category : Category) (p : Float) :
      Origin text (Learning.Classifier.prediction category p)

theorem Proposal.fixAt_zero (category : Category) (text : String) :
    fixAt category 0 text = none := by
  cases h : fixAt category 0 text with
  | none => rfl
  | some fix =>
    have := (fixAt_eq_some h).2.2.1
    omega

theorem Proposal.fixAt_missingReturn (line : Nat) (text : String) :
    fixAt .missingReturn line text = none := by
  simp [fixAt, changeFor]

theorem Lexical.category_of_mem_rules {r : Rule} (h : r ∈ rules) : r.category ∈ categories := by
  have hmap : r.category ∈ rules.map (·.category) := List.mem_map_of_mem h
  exact hmap

theorem Origin.wellFormed {text : String} {f : Finding} (h : Origin text f) :
    Report.Item.WellFormed text ⟨f, Proposal.fixFor f text⟩ := by
  cases h with
  | rule hr hpos hle description =>
    refine ⟨rfl, by simp [Finding.atLine], fun _ => ?_, by simp [Finding.atLine],
      by simp [Finding.atLine], fun fix hfix => ?_⟩
    · exact ⟨Lexical.category_of_mem_rules hr, hpos, hle⟩
    · obtain ⟨hcategory, hline, -⟩ := Proposal.fixAt_eq_some hfix
      exact ⟨rfl, hcategory, hline⟩
  | function row description =>
    refine ⟨rfl, by simp [Finding.atLine], by simp [Finding.atLine], fun _ => ?_,
      by simp [Finding.atLine], fun fix hfix => ?_⟩
    · exact Or.inl ⟨rfl, Nat.le_add_left 1 row⟩
    · have hnone : Proposal.fixFor (.atLine .missingReturn (row + 1) description .structural) text
          = none := Proposal.fixAt_missingReturn _ text
      rw [hnone] at hfix
      cases hfix
  | fault description =>
    refine ⟨rfl, by simp [Finding.atLine], by simp [Finding.atLine], fun _ => Or.inr ⟨rfl, rfl⟩,
      by simp [Finding.atLine], fun fix hfix => ?_⟩
    have hnone : Proposal.fixFor (.atLine .syntaxError 0 description .structural) text = none :=
      Proposal.fixAt_zero _ text
    rw [hnone] at hfix
    cases hfix
  | failure name e =>
    refine ⟨rfl, by simp [Engine.failure, Finding.atLine], by simp [Engine.failure, Finding.atLine],
      by simp [Engine.failure, Finding.atLine], fun _ => rfl, fun fix hfix => ?_⟩
    have hnone : Proposal.fixFor (Engine.failure name e) text = none := Proposal.fixAt_zero _ text
    rw [hnone] at hfix
    cases hfix
  | prediction category p =>
    refine ⟨rfl, by simp [Learning.Classifier.prediction, Finding.predicted],
      by simp [Learning.Classifier.prediction, Finding.predicted],
      by simp [Learning.Classifier.prediction, Finding.predicted], fun _ => rfl, fun fix hfix => ?_⟩
    have hnone : Proposal.fixFor (Learning.Classifier.prediction category p) text = none :=
      Proposal.fixAt_zero _ text
    rw [hnone] at hfix
    cases hfix

/-! ## The lexical detector -/

namespace Lexical

theorem origin_of_mem_findings {r : Rule} (hr : r ∈ rules) {text : String} {f : Finding}
    (h : f ∈ r.findings text.toList) : Origin text f := by
  obtain ⟨hpos, hle⟩ := Rule.line_of_mem_findings hr h
  obtain ⟨o, -, rfl⟩ := List.mem_map.mp h
  exact .rule hr hpos hle _

theorem origin_of_mem_scan {text : String} {f : Finding} (h : f ∈ scan text) : Origin text f := by
  obtain ⟨r, hr, hf⟩ := List.mem_flatMap.mp h
  exact origin_of_mem_findings hr hf

theorem of_mem_findings {r : Rule} {text : List Char} {f : Finding} (h : f ∈ r.findings text) :
    f.category = r.category ∧ f.detector = .lexical := by
  obtain ⟨o, -, rfl⟩ := List.mem_map.mp h
  exact ⟨rfl, rfl⟩

theorem detector_of_mem_scan {text : String} {f : Finding} (h : f ∈ scan text) :
    f.detector = .lexical := by
  obtain ⟨r, -, hf⟩ := List.mem_flatMap.mp h
  exact (of_mem_findings hf).2

theorem rules_pairwise :
    rules.Pairwise fun r s => categories.idxOf r.category < categories.idxOf s.category := by
  have h : (rules.map fun r => categories.idxOf r.category).Pairwise (· < ·) := by decide
  exact List.pairwise_map.mp h

theorem scan_pairwise (text : String) : (scan text).Pairwise Finding.MayPrecede := by
  refine List.pairwise_flatMap.mpr ⟨?_, ?_⟩
  · intro r hr
    apply (Rule.findings_pairwise hr text.toList).imp_of_mem
    intro a b ha hb hab
    obtain ⟨hcategory, hdetector⟩ := of_mem_findings ha
    obtain ⟨hcategory', hdetector'⟩ := of_mem_findings hb
    refine Or.inr ⟨by rw [hdetector, hdetector'], fun _ => Or.inr ⟨?_, hab⟩⟩
    rw [hcategory, hcategory']
  · apply rules_pairwise.imp
    intro r s hrs a ha b hb
    obtain ⟨hcategory, hdetector⟩ := of_mem_findings ha
    obtain ⟨hcategory', hdetector'⟩ := of_mem_findings hb
    refine Or.inr ⟨by rw [hdetector, hdetector'], fun _ => Or.inl ?_⟩
    rw [hcategory, hcategory']
    exact hrs

end Lexical

/-! ## The structural detector -/

namespace Structural

/-- What the detector gives in its turn: its findings, or the report of its failure. -/
def turn (text : String) : List Finding :=
  (scan text).getD [Engine.failure Detector.structural.name .noTree]

theorem turn_cases (text : String) :
    (∃ description, turn text = [.atLine .syntaxError 0 description .structural]) ∨
      (∀ f ∈ turn text,
        ∃ row description, f = .atLine .missingReturn (row + 1) description .structural) ∨
      turn text = [Engine.failure Detector.structural.name .noTree] := by
  unfold turn scan
  cases C.tree? text.toList with
  | none => exact Or.inr (Or.inr rfl)
  | some root =>
    simp only [Option.map_some, Option.getD_some, scanTree]
    cases fault? text.toList root with
    | some fault => exact Or.inl ⟨_, rfl⟩
    | none =>
      right; left
      intro f hf
      obtain ⟨function, -, hcheck⟩ := mem_walk_root.mp hf
      exact ⟨_, _, (checkFunction_eq_some_iff.mp hcheck).2.2⟩

theorem cases_of_mem_turn {text : String} {f : Finding} (h : f ∈ turn text) :
    (∃ description, f = .atLine .syntaxError 0 description .structural) ∨
      (∃ row description, f = .atLine .missingReturn (row + 1) description .structural) ∨
      f = Engine.failure Detector.structural.name .noTree := by
  rcases turn_cases text with ⟨description, hfault⟩ | hfunctions | hfailed
  · rw [hfault, List.mem_singleton] at h
    exact Or.inl ⟨description, h⟩
  · exact Or.inr (Or.inl (hfunctions f h))
  · rw [hfailed, List.mem_singleton] at h
    exact Or.inr (Or.inr h)

theorem origin_of_mem_turn {text : String} {f : Finding} (h : f ∈ turn text) : Origin text f := by
  rcases cases_of_mem_turn h with ⟨description, rfl⟩ | ⟨row, description, rfl⟩ | rfl
  · exact .fault description
  · exact .function row description
  · exact .failure _ _

theorem turn_of_mem_turn {text : String} {f : Finding} (h : f ∈ turn text) :
    f.detector.turn = 1 ∧ f.detector ≠ .lexical := by
  rcases cases_of_mem_turn h with ⟨description, rfl⟩ | ⟨row, description, rfl⟩ | rfl
  · exact ⟨rfl, by simp [Finding.atLine]⟩
  · exact ⟨rfl, by simp [Finding.atLine]⟩
  · exact ⟨rfl, by simp [Engine.failure, Finding.atLine]⟩

theorem oneFaultOrFunctions_turn (text : String) :
    OneFaultOrFunctions ((turn text).filter (·.detector = .structural)) := by
  rcases turn_cases text with ⟨description, hfault⟩ | hfunctions | hfailed
  · left
    rw [hfault]
    exact ⟨_, rfl, rfl⟩
  · right
    intro f hf
    obtain ⟨row, description, rfl⟩ := hfunctions f (List.mem_filter.mp hf).1
    rfl
  · right
    rw [hfailed]
    intro f hf
    cases hf

end Structural

/-! ## Main result -/

namespace Engine

theorem origin_of_mem_predict {c : Learning.Classifier} {text : String} {f : Finding}
    (h : f ∈ c.predict text) : Origin text f := by
  unfold Learning.Classifier.predict at h
  split at h
  · cases h
  · obtain ⟨⟨category, p⟩, -, rfl⟩ := List.mem_map.mp h
    exact .prediction category p

/-- The findings of a standard engine, turn by turn. -/
def turns (settings : DetectionSettings) (c : Learning.Classifier) (text : String) :
    List Finding :=
  (if settings.lexical then Lexical.scan text else [])
    ++ (if settings.structural then Structural.turn text else [])
    ++ if settings.classifier then c.predict text else []

theorem analyze?_standard_turns (settings : DetectionSettings) (c : Learning.Classifier)
    (text : String) : (standard settings c).analyze? text = some (turns settings c text) :=
  Store.analyze?_standard settings c text

theorem mem_of_mem_ite {α : Type} {b : Bool} {l : List α} {a : α}
    (h : a ∈ if b = true then l else []) : a ∈ l := by
  cases b with
  | false => cases h
  | true => exact h

theorem pairwise_ite {α : Type} {R : α → α → Prop} {b : Bool} {l : List α} (h : l.Pairwise R) :
    (if b = true then l else []).Pairwise R := by
  cases b with
  | false => exact List.Pairwise.nil
  | true => exact h

/-- Findings of one turn, none of them lexical, are in order. -/
theorem pairwise_of_turn {found : List Finding} {n : Nat}
    (h : ∀ f ∈ found, f.detector.turn = n ∧ f.detector ≠ .lexical) :
    found.Pairwise Finding.MayPrecede := by
  apply List.pairwise_of_forall_mem_list
  intro a ha b hb
  refine Or.inr ⟨?_, fun hlexical => absurd hlexical (h a ha).2⟩
  rw [(h a ha).1, (h b hb).1]

variable {settings : DetectionSettings} {c : Learning.Classifier} {text : String}

theorem origin_of_mem_turns {f : Finding} (h : f ∈ turns settings c text) : Origin text f := by
  rcases List.mem_append.mp h with h | h
  · rcases List.mem_append.mp h with h | h
    · exact Lexical.origin_of_mem_scan (mem_of_mem_ite h)
    · exact Structural.origin_of_mem_turn (mem_of_mem_ite h)
  · exact origin_of_mem_predict (mem_of_mem_ite h)

theorem oneFaultOrFunctions_turns :
    OneFaultOrFunctions ((turns settings c text).filter (·.detector = .structural)) := by
  rw [turns, List.filter_append, List.filter_append]
  -- only the second turn has structural findings
  have hlexical : (if settings.lexical then Lexical.scan text else []).filter
      (·.detector = .structural) = [] := by
    rw [List.filter_eq_nil_iff]
    intro f hf
    simp [Lexical.detector_of_mem_scan (mem_of_mem_ite hf)]
  have hclassifier : (if settings.classifier then c.predict text else []).filter
      (·.detector = .structural) = [] := by
    rw [List.filter_eq_nil_iff]
    intro f hf
    simp [Store.detector_of_mem_predict (mem_of_mem_ite hf)]
  rw [hlexical, hclassifier, List.nil_append, List.append_nil]
  cases settings.structural with
  | false => exact Or.inr fun f hf => by cases hf
  | true => exact Structural.oneFaultOrFunctions_turn text

theorem turns_pairwise : (turns settings c text).Pairwise Finding.MayPrecede := by
  have hfirst : ∀ f ∈ (if settings.lexical then Lexical.scan text else []),
      f.detector.turn = 0 := by
    intro f hf
    rw [Lexical.detector_of_mem_scan (mem_of_mem_ite hf)]
    rfl
  have hsecond : ∀ f ∈ (if settings.structural then Structural.turn text else []),
      f.detector.turn = 1 := fun f hf => (Structural.turn_of_mem_turn (mem_of_mem_ite hf)).1
  have hthird : ∀ f ∈ (if settings.classifier then c.predict text else []),
      f.detector.turn = 2 := by
    intro f hf
    rw [Store.detector_of_mem_predict (mem_of_mem_ite hf)]
    rfl
  refine List.pairwise_append.mpr ⟨List.pairwise_append.mpr ⟨?_, ?_, ?_⟩, ?_, ?_⟩
  · exact pairwise_ite (Lexical.scan_pairwise text)
  · exact pairwise_ite (pairwise_of_turn fun f hf => Structural.turn_of_mem_turn hf)
  · intro a ha b hb
    left
    rw [hfirst a ha, hsecond b hb]
    exact Nat.zero_lt_one
  · apply pairwise_ite
    apply pairwise_of_turn (n := 2)
    intro f hf
    rw [Store.detector_of_mem_predict hf]
    exact ⟨rfl, by simp⟩
  · intro a ha b hb
    left
    rw [hthird b hb]
    rcases List.mem_append.mp ha with ha | ha
    · rw [hfirst a ha]
      exact Nat.zero_lt_two
    · rw [hsecond a ha]
      exact Nat.one_lt_two

/-- A standard engine reports on every text. Each item of the report is well formed, the structural
findings are one fault or functions, and all findings are in order. -/
theorem report?_standard_wellFormed (settings : DetectionSettings) (c : Learning.Classifier)
    (name text : String) :
    ∃ r, (standard settings c).report? name text = some r ∧
      (∀ i ∈ r.items, i.WellFormed text) ∧
      OneFaultOrFunctions ((r.items.map (·.finding)).filter (·.detector = .structural)) ∧
      (r.items.map (·.finding)).Pairwise Finding.MayPrecede := by
  refine ⟨_, by rw [report?, analyze?_standard_turns]; rfl, ?_, ?_, ?_⟩
  · intro i hi
    obtain ⟨f, hf, rfl⟩ := List.mem_map.mp hi
    exact (origin_of_mem_turns hf).wellFormed
  · simp only [Report.ofFindings, List.map_map, Function.comp_def, List.map_id']
    exact oneFaultOrFunctions_turns
  · simp only [Report.ofFindings, List.map_map, Function.comp_def, List.map_id']
    exact turns_pairwise

end Engine

end DefectScan
