import DefectScan.Proofs.DetectorThreads
import DefectScan.Proofs.Infinities
import DefectScan.Proofs.MalformedRows
import DefectScan.Proofs.ReportShape
import DefectScan.Proofs.TrainingData
import DefectScan.Proofs.TreePlaces

/-!
# What is reported is what is stored

Engines analyse sources one after another, and each report is recorded in a store that was empty. The
store then gives back the items of the reports, in order and each once:

    query none of the store after r₁, …, rₙ = items r₁ ++ … ++ items rₙ

A finding is joined only with its own fix, since the number that a fix names was given out to the
finding right before it (`entries_itemCalls`). That an item comes back as it was needs three things of
it, all of them true of what the detectors find: its line fits into a row, its confidence is a number,
and its fix is for the category of its finding (`Keepable`).
-/

namespace DefectScan

open Text

/-! ## Recording one source after another -/

/-- A detector of the program, or one that fails on every text. Only side by side may it also break
down. -/
inductive Detector.Supplied (parallel : Bool) : Detector → Prop
  | lexical : Supplied parallel .lexical
  | structural : Supplied parallel .structural
  | classifier (c : Learning.Classifier) : Supplied parallel (.classifier c)
  | failing (name : String) (detect : String → Outcome)
      (h : ∀ text, (∃ e, detect text = .failed e) ∨ parallel = true ∧ detect text = .brokeDown) :
      Supplied parallel ⟨name, detect⟩

/-- The same item: of a confidence only the sign of a zero may differ, and such numbers are equal. -/
structure Report.Item.Same (reported stored : Report.Item) : Prop where
  finding : stored.finding = { reported.finding with confidence := stored.finding.confidence }
  confidence : match reported.finding.confidence, stored.finding.confidence with
    | none, none => True
    | some x, some y => (y == x) = true ∧ (x ≠ -0.0 → y = x)
    | _, _ => False
  fix : stored.fix = reported.fix

/-! ## The entries of a log -/

namespace Store

namespace Log

theorem fixes_append (log more : Log) : fixes (log ++ more) = log.fixes ++ fixes more :=
  List.filterMap_append

theorem fixesOf_append (log more : Log) (id : Nat) :
    fixesOf (log ++ more) id = log.fixesOf id ++ more.fixesOf id := by
  rw [fixesOf, fixes_append, List.filterMap_append]
  rfl

theorem fixesOf_itemCalls (sample : Int) (n id : Nat) (i : Report.Item) :
    fixesOf (itemCalls sample n i) id = if n = id then i.fix.toList else [] := by
  cases hfix : i.fix with
  | none => simp [itemCalls, fixesOf, fixes, hfix]
  | some fix =>
    by_cases hn : n = id
    · simp [itemCalls, fixesOf, fixes, hfix, hn]
    · have hcast : ¬ (n : Int) = id := by omega
      simp [itemCalls, fixesOf, fixes, hfix, hn, hcast]

/-- Every fix is for a finding of the log. -/
def Known (log : Log) : Prop := ∀ id, log.findings.length < id → log.fixesOf id = []

theorem known_nil : Known [] := fun _ _ => rfl

theorem withFixes_congr {log log' : Log} {id : Nat} (h : log'.fixesOf id = log.fixesOf id)
    (f : Finding) : log'.withFixes f id = log.withFixes f id := by
  unfold withFixes
  rw [h]

/-- An item more is an entry more; nothing that was there is joined with it. -/
theorem entries_itemCalls {log : Log} (h : log.Known) (sample : Int) (i : Report.Item) :
    entries (log ++ itemCalls sample ((log.findings.length + 1 : Nat) : Int) i)
        = log.entries ++ [(i.finding, i.fix)] ∧
      Known (log ++ itemCalls sample ((log.findings.length + 1 : Nat) : Int) i) := by
  have hfixes : ∀ id, fixesOf (log ++ itemCalls sample ((log.findings.length + 1 : Nat) : Int) i) id
      = log.fixesOf id ++ if log.findings.length + 1 = id then i.fix.toList else [] := by
    intro id
    rw [fixesOf_append, fixesOf_itemCalls]
  constructor
  · unfold entries
    rw [findings_append, findings_itemCalls, List.zipIdx_append, List.flatMap_append]
    congr 1
    · apply List.flatMap_congr
      rintro ⟨⟨n, f⟩, id⟩ hmem
      apply withFixes_congr
      have hid := (List.mem_zipIdx hmem).2.1
      rw [hfixes, if_neg (by omega), List.append_nil]
    · rw [List.zipIdx_singleton, List.flatMap_singleton]
      have hnew : fixesOf (log ++ itemCalls sample ((log.findings.length + 1 : Nat) : Int) i)
          (1 + log.findings.length) = i.fix.toList := by
        rw [hfixes, if_pos (by omega), h _ (by omega), List.nil_append]
      show withFixes _ i.finding (1 + log.findings.length) = _
      unfold withFixes
      rw [hnew]
      cases i.fix with
      | none => rfl
      | some fix => rfl
  · intro id hid
    rw [findings_append, findings_itemCalls, List.length_append, List.length_singleton] at hid
    rw [hfixes, if_neg (by omega), h id (by omega)]
    rfl

theorem entries_itemsCalls (sample : Int) (is : List Report.Item) :
    ∀ {log : Log}, log.Known →
      entries (log ++ itemsCalls sample ((log.findings.length + 1 : Nat) : Int) is)
          = log.entries ++ is.map (fun i => (i.finding, i.fix)) ∧
        Known (log ++ itemsCalls sample ((log.findings.length + 1 : Nat) : Int) is) := by
  induction is with
  | nil =>
    intro log h
    rw [itemsCalls, List.append_nil, List.map_nil, List.append_nil]
    exact ⟨rfl, h⟩
  | cons i is ih =>
    intro log h
    obtain ⟨hentries, hknown⟩ := entries_itemCalls h sample i
    have hnumber : (findings (log ++ itemCalls sample ((log.findings.length + 1 : Nat) : Int) i)).length
        = log.findings.length + 1 := by
      rw [findings_append, findings_itemCalls, List.length_append]
      rfl
    obtain ⟨hentries', hknown'⟩ := ih hknown
    rw [hnumber] at hentries' hknown'
    rw [itemsCalls, ← List.append_assoc]
    refine ⟨?_, hknown'⟩
    rw [List.map_cons, List.append_cons, ← hentries]
    exact hentries'

theorem findings_sample (log : Log) (x : Sample) : findings (log ++ [.sample x]) = log.findings := by
  rw [findings_append]
  exact List.append_nil _

theorem fixes_sample (log : Log) (x : Sample) : fixes (log ++ [.sample x]) = log.fixes := by
  rw [fixes_append]
  exact List.append_nil _

/-- A report more is its items more. -/
theorem entries_reportCalls {log : Log} (h : log.Known) (text : String) (r : Report) :
    entries (log ++ reportCalls log text r) = log.entries ++ r.items.map (fun i => (i.finding, i.fix)) ∧
      Known (log ++ reportCalls log text r) := by
  let x : Sample := ⟨r.name, text, r.hasDefects⟩
  have hfixes : ∀ id, fixesOf (log ++ [.sample x]) id = log.fixesOf id := by
    intro id
    unfold fixesOf
    rw [fixes_sample]
  have hentries : entries (log ++ [.sample x]) = log.entries := by
    unfold entries withFixes
    rw [findings_sample]
    simp only [hfixes]
  have hknown : Known (log ++ [.sample x]) := by
    intro id hid
    rw [findings_sample] at hid
    rw [hfixes]
    exact h id hid
  have hitems := entries_itemsCalls (log.samples.length + 1) r.items hknown
  rw [hentries, findings_sample, List.append_assoc] at hitems
  exact hitems

end Log

/-! ## Items that come back as they were -/

/-- What a row can hold of a finding. -/
structure Keepable (f : Finding) : Prop where
  line : f.line ≤ maxLine
  confidence : ∀ x, f.confidence = some x → x.isNaN = false

theorem same_recalled {text : String} {f : Finding} (h : Keepable f) :
    Report.Item.Same ⟨f, Proposal.fixFor f text⟩ (recalled (f, Proposal.fixFor f text)) := by
  have hline : min f.line maxLine = f.line := Nat.min_eq_left h.line
  refine ⟨?_, ?_, ?_⟩
  · show { f with line := min f.line maxLine, confidence := f.confidence.bind rowConfidence } = _
    rw [hline]
    rfl
  · have hsame := sameConfidence_bind f.confidence
    show match f.confidence, f.confidence.bind rowConfidence with
      | none, none => True
      | some x, some y => (y == x) = true ∧ (x ≠ -0.0 → y = x)
      | _, _ => False
    cases hconfidence : f.confidence with
    | none => trivial
    | some x =>
      have hnumber := h.confidence x hconfidence
      rw [hconfidence] at hsame
      have hrow : (some x).bind rowConfidence = some (x + 0) := by
        rw [Option.bind_some, rowConfidence, hnumber, if_neg Bool.false_ne_true]
      rw [hrow] at hsame ⊢
      exact hsame.2
  · show (Proposal.fixFor f text).map _ = Proposal.fixFor f text
    cases hfix : Proposal.fixFor f text with
    | none => rfl
    | some fix =>
      obtain ⟨hcategory, hfixLine, -⟩ := Proposal.fixAt_eq_some hfix
      rw [Option.map_some, hfixLine, hline, ← hcategory, ← hfixLine]

end Store

/-! ## What the detectors find -/

theorem Learning.Classifier.keepable_of_mem_predict {c : Learning.Classifier} {text : String}
    {f : Finding} (h : f ∈ c.predict text) : Store.Keepable f := by
  unfold predict at h
  split at h
  · cases h
  · next m _ =>
    obtain ⟨⟨category, p⟩, hp, rfl⟩ := List.mem_map.mp h
    have hreaches : p ≥ m.threshold := by
      simpa using (List.mem_filter.mp hp).2
    refine ⟨Nat.zero_le _, ?_⟩
    rintro x ⟨rfl⟩
    show (clampUnit p).isNaN = false
    unfold clampUnit
    split
    · decide +kernel
    · split
      · decide +kernel
      · exact (Binary64.isNaN_of_le hreaches).2

theorem Store.le_maxLine {n lines : Nat} (hlines : lines < 2 ^ 63) (hn : n ≤ lines) : n ≤ maxLine := by
  rw [maxLine, Nat.pow_eq]
  omega

theorem Lexical.keepable_of_mem_scan {text : String} (hlines : Lines.count text.toList < 2 ^ 63)
    {f : Finding} (h : f ∈ scan text) : Store.Keepable f := by
  obtain ⟨r, hr, hf⟩ := List.mem_flatMap.mp h
  have hline := (Rule.line_of_mem_findings hr hf).2
  obtain ⟨o, -, rfl⟩ := List.mem_map.mp hf
  refine ⟨Store.le_maxLine hlines hline, ?_⟩
  rintro x ⟨⟩

theorem Structural.confidence_of_mem_turn {text : String} {f : Finding} (h : f ∈ turn text) :
    f.confidence = none := by
  rcases cases_of_mem_turn h with ⟨description, rfl⟩ | ⟨row, description, rfl⟩ | rfl
  · rfl
  · rfl
  · rfl

theorem Structural.keepable_of_mem_turn {text : String} (hlines : Lines.count text.toList < 2 ^ 63)
    {f : Finding} (h : f ∈ turn text) : Store.Keepable f := by
  refine ⟨?_, by simp [confidence_of_mem_turn h]⟩
  unfold turn at h
  cases hscan : scan text with
  | none =>
    rw [hscan] at h
    rw [List.mem_singleton.mp h]
    exact Nat.zero_le _
  | some fs =>
    rw [hscan] at h
    exact Store.le_maxLine hlines (line_of_mem_scan hscan h)

theorem Engine.keepable_of_findings? {parallel : Bool} {d : Detector} (hd : d.Supplied parallel)
    {text : String} (hlines : Lines.count text.toList < 2 ^ 63) {found : List Finding}
    (h : findings? parallel d text = some found) : ∀ f ∈ found, Store.Keepable f := by
  have hfailure : ∀ name e, Store.Keepable (failure name e) := by
    intro name e
    refine ⟨Nat.zero_le _, ?_⟩
    rintro x ⟨⟩
  cases hd with
  | lexical =>
    cases h
    intro f hf
    exact Lexical.keepable_of_mem_scan hlines hf
  | structural =>
    rw [Store.findings?_structural] at h
    cases h
    intro f hf
    exact Structural.keepable_of_mem_turn hlines hf
  | classifier c =>
    cases h
    intro f hf
    exact Learning.Classifier.keepable_of_mem_predict hf
  | failing name detect hfails =>
    unfold findings? at h
    intro f hf
    rcases hfails text with ⟨e, he⟩ | ⟨rfl, hbroke⟩
    · simp only [he] at h
      cases h
      rw [List.mem_singleton.mp hf]
      exact hfailure _ _
    · simp only [hbroke] at h
      cases h
      rw [List.mem_singleton.mp hf]
      exact hfailure _ _

/-- What an engine of such detectors finds in a text. -/
theorem Engine.exists_report?_keepable {e : Engine} (he : ∀ d ∈ e.detectors, d.Supplied e.parallel)
    (name : String) {text : String} (hlines : Lines.count text.toList < 2 ^ 63) :
    ∃ found, e.report? name text = some (.ofFindings name text found) ∧
      ∀ f ∈ found, Store.Keepable f := by
  have hends : ∀ d ∈ e.detectors, e.parallel = true ∨ d.detect text ≠ .brokeDown := by
    intro d hd
    cases he d hd with
    | lexical => exact Or.inr (by rintro ⟨⟩)
    | structural =>
      right
      unfold Detector.structural
      simp only
      split <;> rintro ⟨⟩
    | classifier c => exact Or.inr (by rintro ⟨⟩)
    | failing name detect hfails =>
      rcases hfails text with ⟨err, herr⟩ | ⟨hparallel, -⟩
      · right
        show detect text ≠ .brokeDown
        rw [herr]
        rintro ⟨⟩
      · exact Or.inl hparallel
  have hanalyze : e.analyze? text = some (e.detectors.flatMap (contribution text)) := by
    apply analyze?_eq_contributions
    by_cases hparallel : e.parallel = true
    · exact Or.inl hparallel
    · exact Or.inr fun d hd => (hends d hd).resolve_left hparallel
  refine ⟨e.detectors.flatMap (contribution text), ?_, ?_⟩
  · rw [report?, hanalyze]
    rfl
  · intro f hf
    obtain ⟨d, hd, hf⟩ := List.mem_flatMap.mp hf
    exact keepable_of_findings? (he d hd) hlines (findings?_eq_contribution (hends d hd)) f hf

namespace Store

/-! ## Runs -/

/-- The reports are those of the sources, numbered from `n + 1` on. -/
def Numbered (n : Nat) (sources : List Source) (rs : List Report) : Prop :=
  rs.length = sources.length ∧ ∀ (k : Nat) (x : Source), sources[k]? = some x →
    ∃ r, x.engine.report? x.name x.text = some r ∧
      rs[k]? = some { r with sample := some ((n + k + 1 : Nat) : Int) }

/-- A source that is analysed by detectors of the program or failing ones, with a line count that
fits into a row. -/
structure Source.Recordable (x : Source) : Prop where
  supplied : ∀ d ∈ x.engine.detectors, d.Supplied x.engine.parallel
  lines : Lines.count x.text.toList < 2 ^ 63

theorem recordAll_represents (sources : List Source) :
    ∀ {s : Store} {log : Log}, Represents s log → log.Known → (∀ x ∈ sources, x.Recordable) →
      ∃ s' rs log', s.recordAll sources = some (.ok (s', rs)) ∧ Represents s' log' ∧
        Numbered log.samples.length sources rs ∧
        log'.entries = log.entries ++ (rs.flatMap (·.items)).map (fun i => (i.finding, i.fix)) ∧
        ∀ i ∈ rs.flatMap (·.items), Report.Item.Same i (recalled (i.finding, i.fix)) := by
  induction sources with
  | nil =>
    intro s log hs _ _
    refine ⟨s, [], log, rfl, hs, ⟨rfl, by simp⟩, by simp, by simp⟩
  | cons x rest ih =>
    intro s log hs hknown hsources
    obtain ⟨hx, hsources⟩ := List.forall_mem_cons.mp hsources
    obtain ⟨found, hreport, hkeepable⟩ := Engine.exists_report?_keepable hx.supplied x.name hx.lines
    let r : Report := .ofFindings x.name x.text found
    obtain ⟨s₁, hrecord, hs₁⟩ := represents_record hs x.text r
    obtain ⟨hentries, hknown₁⟩ := Log.entries_reportCalls hknown x.text r
    obtain ⟨s', rs, log', hrest, hs', ⟨hlength, hnumbered⟩, hentries', hsame⟩ :=
      ih hs₁ hknown₁ hsources
    rw [Log.samples_append, Log.samples_reportCalls, List.length_append, List.length_singleton]
      at hnumbered
    refine ⟨s', _ :: rs, log', recordAll_cons hreport hrecord hrest, hs', ⟨?_, ?_⟩, ?_, ?_⟩
    · rw [List.length_cons, List.length_cons, hlength]
    · intro k y hk
      cases k with
      | zero =>
        cases hk
        exact ⟨_, hreport, rfl⟩
      | succ k =>
        obtain ⟨r', hr', hrs⟩ := hnumbered k y hk
        refine ⟨r', hr', ?_⟩
        have hnumber : log.samples.length + 1 + k + 1 = log.samples.length + (k + 1) + 1 := by omega
        rw [List.getElem?_cons_succ, hrs, hnumber]
    · rw [hentries', hentries, List.flatMap_cons, List.map_append, List.append_assoc]
    · rw [List.flatMap_cons, List.forall_mem_append]
      refine ⟨?_, hsame⟩
      intro i hi
      obtain ⟨f, hf, rfl⟩ := List.mem_map.mp hi
      exact same_recalled (hkeepable f hf)

theorem eq_of_same {i j : Report.Item} (h : i.Same j) (hsign : i.finding.confidence ≠ some (-0.0)) :
    j = i := by
  obtain ⟨⟨category, line, description, severity, reported, detector⟩, fix⟩ := i
  obtain ⟨⟨_, _, _, _, stored, _⟩, fix'⟩ := j
  obtain ⟨hfinding, hconfidence, hfix⟩ := h
  simp only [Finding.mk.injEq] at hfinding
  obtain ⟨rfl, rfl, rfl, rfl, -, rfl⟩ := hfinding
  have hstored : stored = reported := by
    cases reported with
    | none =>
      cases stored with
      | none => rfl
      | some y => cases hconfidence
    | some x =>
      cases stored with
      | none => cases hconfidence
      | some y =>
        have hx : x ≠ -0.0 := fun hx => hsign (congrArg some hx)
        rw [hconfidence.2 hx]
  rw [hstored, show fix' = fix from hfix]

/-! ## Main result -/

/-- Whatever sources are analysed by such engines, all reports are recorded, and each has the number
of its place. The store gives their items back in order, each once, and by category the ones of this
category. They are the same items, except that the sign of a confidence of zero is not kept. -/
theorem query_recordAll (sources : List Source) (hsources : ∀ x ∈ sources, x.Recordable) :
    ∃ s rs items, recordAll {} sources = some (.ok (s, rs)) ∧ Numbered 0 sources rs ∧
      s.query none = .ok items ∧ List.Forall₂ Report.Item.Same (rs.flatMap (·.items)) items ∧
      ((∀ i ∈ rs.flatMap (·.items), i.finding.confidence ≠ some (-0.0)) →
        items = rs.flatMap (·.items)) ∧
      ∀ c, s.query (some c) = .ok (items.filter fun i => i.finding.category = c) := by
  obtain ⟨s, rs, log, hrecord, hs, hnumbered, hentries, hsame⟩ :=
    recordAll_represents sources represents_empty Log.known_nil hsources
  have hentries : log.entries = (rs.flatMap (·.items)).map fun i => (i.finding, i.fix) := hentries
  have hforall : List.Forall₂ Report.Item.Same (rs.flatMap (·.items)) (log.entries.map recalled) := by
    rw [hentries, List.map_map, List.forall₂_map_right_iff, List.forall₂_same]
    exact hsame
  refine ⟨s, rs, log.entries.map recalled, hrecord, hnumbered, query_of_represents hs, hforall, ?_,
    query_category_of_query (query_of_represents hs)⟩
  intro hsign
  rw [hentries, List.map_map]
  conv_rhs => rw [← List.map_id (rs.flatMap (·.items))]
  apply List.map_congr_left
  intro i hi
  exact eq_of_same (hsame i hi) (hsign i hi)

/-- Two sources under the lexical detector and one that fails, the second of them side by side: a
finding with a fix and one without, then one alone. -/
theorem query_recordAll_two_sources :
    let probe : Detector := ⟨"probe", fun _ => .failed .noTree⟩
    let a : Source := ⟨⟨[.lexical, probe], false⟩, "a.c", "int x;\ngets(b);"⟩
    let b : Source := ⟨⟨[probe, .lexical], true⟩, "b.c", ""⟩
    ∃ s rs items, recordAll {} [a, b] = some (.ok (s, rs)) ∧
      rs.map (·.sample) = [some 1, some 2] ∧ s.query none = .ok items ∧
      items.map (fun i => (i.finding.category, i.finding.line, i.fix.isSome))
        = [(.bufferOverflow, 2, true), (.uninitializedVar, 1, true), (.syntaxError, 0, false),
          (.syntaxError, 0, false)] ∧
      (∃ i, s.query (some .bufferOverflow) = .ok [i]) := by
  intro probe a b
  have hprobe : ∀ parallel, probe.Supplied parallel :=
    fun _ => .failing _ _ fun _ => Or.inl ⟨_, rfl⟩
  have hsources : ∀ x ∈ [a, b], x.Recordable := by
    intro x hx
    rcases List.mem_cons.mp hx with rfl | hx
    · exact ⟨by simpa [a] using ⟨.lexical, hprobe false⟩, by decide⟩
    · rw [List.mem_singleton.mp hx]
      exact ⟨by simpa [b] using ⟨hprobe true, .lexical⟩, by decide⟩
  obtain ⟨s, rs, items, hrecord, ⟨hlength, hnumbered⟩, hall, -, heq, hcategory⟩ :=
    query_recordAll [a, b] hsources
  obtain ⟨r, hr, hrs⟩ := hnumbered 0 _ rfl
  obtain ⟨r', hr', hrs'⟩ := hnumbered 1 _ rfl
  obtain ⟨first, second, rfl⟩ := List.length_eq_two.mp hlength
  obtain rfl : first = _ := Option.some.inj hrs
  obtain rfl : second = _ := Option.some.inj hrs'
  let view (i : Report.Item) := (i.finding.category, i.finding.line, i.fix.isSome)
  let confident (i : Report.Item) := i.finding.confidence.isSome
  have hview : (a.engine.report? a.name a.text).map (fun r => (r.items.map view, r.items.any confident))
      = some ([(.bufferOverflow, 2, true), (.uninitializedVar, 1, true), (.syntaxError, 0, false)],
        false) := by decide +kernel
  have hview' : (b.engine.report? b.name b.text).map (fun r => (r.items.map view, r.items.any confident))
      = some ([(.syntaxError, 0, false)], false) := by decide +kernel
  rw [hr, Option.map_some, Option.some.injEq, Prod.mk.injEq] at hview
  rw [hr', Option.map_some, Option.some.injEq, Prod.mk.injEq] at hview'
  have hitems : items = r.items ++ (r'.items ++ []) := by
    apply heq
    intro i hi hsign
    have hnone : (r.items ++ (r'.items ++ [])).any confident = false := by
      rw [List.any_append, List.any_append, hview.2, hview'.2]
      rfl
    have := List.any_eq_false.mp hnone i hi
    simp [confident, hsign] at this
  have hmap : items.map view = [(.bufferOverflow, 2, true), (.uninitializedVar, 1, true),
      (.syntaxError, 0, false), (.syntaxError, 0, false)] := by
    rw [hitems, List.append_nil, List.map_append, hview.1, hview'.1]
    rfl
  refine ⟨s, _, items, hrecord, rfl, hall, hmap, ?_⟩
  have hone : (items.filter fun i => i.finding.category = .bufferOverflow).length = 1 := by
    have hcount := congrArg (List.countP fun x => x.1 = Category.bufferOverflow) hmap
    rw [List.countP_map] at hcount
    rw [← List.countP_eq_length_filter]
    exact hcount
  obtain ⟨i, hi⟩ := List.length_eq_one_iff.mp hone
  exact ⟨i, by rw [hcategory, hi]⟩

end Store

end DefectScan
