import DefectScan.Proofs.Recording

/-!
# The classifier does not teach itself

Analyses are recorded one after another, and the examples of the store are what a classifier is
trained on. Each recorded source gives one example, and its labels are read off the source and the
two rule detectors alone:

    examples (record a₁, …, aₙ) = [ruleExample a₁, …, ruleExample aₙ]

Whether there is a classifier, what it has learned, when that changes and whether the detectors run
side by side leaves other rows under other numbers, but no trace in the examples
(`examples_independent_of_classifier`). What carries the run is `Recorded`, and one report more is
`recorded_record`.
-/

namespace DefectScan.Store

/-- A source to record, with the settings and the classifier at that time. -/
structure Analysis where
  name : String
  text : String
  settings : DetectionSettings
  classifier : Learning.Classifier

/-- The same source under the same rule detectors. -/
structure Analysis.SameRules (a b : Analysis) : Prop where
  name : a.name = b.name
  text : a.text = b.text
  lexical : a.settings.lexical = b.settings.lexical
  structural : a.settings.structural = b.settings.structural

def Analysis.source (a : Analysis) : Source :=
  ⟨.standard a.settings a.classifier, a.name, a.text⟩

/-! ## What the engine finds -/

/-- What the rule detectors find, or what is reported of their failure. -/
def ruleFindings (settings : DetectionSettings) (text : String) : List Finding :=
  (if settings.lexical then Lexical.scan text else []) ++
    if settings.structural then
      (Structural.scan text).getD [Engine.failure Detector.structural.name .noTree]
    else []

theorem findings?_structural (parallel : Bool) (text : String) :
    Engine.findings? parallel .structural text
      = some ((Structural.scan text).getD [Engine.failure Detector.structural.name .noTree]) := by
  simp only [Engine.findings?, Detector.structural]
  cases Structural.scan text <;> rfl

/-- The engine never breaks down; the classifier speaks last. -/
theorem analyze?_standard (settings : DetectionSettings) (c : Learning.Classifier) (text : String) :
    (Engine.standard settings c).analyze? text
      = some (ruleFindings settings text ++ if settings.classifier then c.predict text else []) := by
  obtain ⟨lexical, structural, classifier, parallel⟩ := settings
  have hlex : Engine.findings? parallel .lexical text = some (Lexical.scan text) := rfl
  have hcls : Engine.findings? parallel (.classifier c) text = some (c.predict text) := rfl
  have hstr := findings?_structural parallel text
  unfold Engine.analyze? Engine.standard ruleFindings
  cases lexical <;> cases structural <;> cases classifier <;> simp [hlex, hcls, hstr]

theorem detector_of_mem_predict {c : Learning.Classifier} {text : String} {f : Finding}
    (h : f ∈ c.predict text) : f.detector = .classifier := by
  unfold Learning.Classifier.predict at h
  split at h
  · cases h
  · obtain ⟨p, -, rfl⟩ := List.mem_map.mp h
    rfl

/-- Whether a finding comes from one of the detectors that give labels. -/
def isRule (f : Finding) : Bool := f.detector = .lexical || f.detector = .structural

theorem filter_isRule_predict (c : Learning.Classifier) (text : String) :
    (c.predict text).filter isRule = [] := by
  rw [List.filter_eq_nil_iff]
  intro f hf
  simp [isRule, detector_of_mem_predict hf]

theorem report?_standard (a : Analysis) :
    ∃ r, (Engine.standard a.settings a.classifier).report? a.name a.text = some r ∧
      (r.items.map (·.finding)).filter isRule = (ruleFindings a.settings a.text).filter isRule := by
  refine ⟨_, by rw [Engine.report?, analyze?_standard]; rfl, ?_⟩
  simp only [Report.ofFindings, List.map_map, Function.comp_def, List.map_id', List.filter_append]
  cases a.settings.classifier with
  | false => simp
  | true => rw [if_pos rfl, filter_isRule_predict, List.append_nil]

/-! ## The examples of a log -/

/-- The example that a source gives: its labels are what the rule detectors find. -/
def ruleExample (a : Analysis) : Example :=
  .labelled a.text (((ruleFindings a.settings a.text).filter isRule).map (·.category))

theorem Log.ruleCategories_append (log more : Log) (id : Nat) :
    ruleCategories (log ++ more) id = log.ruleCategories id ++ more.ruleCategories id := by
  rw [ruleCategories, findings_append, List.filter_append, List.map_append]
  rfl

theorem Log.ruleCategories_reportCalls (log : Log) (text : String) (r : Report) (id : Nat) :
    ruleCategories (reportCalls log text r) id =
      if id = log.samples.length + 1 then ((r.items.map (·.finding)).filter isRule).map (·.category)
      else [] := by
  rw [ruleCategories, findings_reportCalls]
  by_cases hid : id = log.samples.length + 1
  · subst hid
    simp only [List.filter_map, List.map_map, Function.comp_def, if_true]
    simp [isRule]
  · rw [if_neg hid, List.filter_eq_nil_iff.mpr, List.map_nil]
    intro p hp
    obtain ⟨i, -, rfl⟩ := List.mem_map.mp hp
    have : ¬ (log.samples.length + 1 : Int) = id := by omega
    simp [this]

/-- The log of a store whose findings all name a sample, and the examples it gives. -/
structure Recorded (s : Store) (log : Log) (es : List Example) : Prop where
  represents : Represents s log
  known : ∀ p ∈ log.findings, p.1 ≤ log.samples.length
  examples : s.examples = .ok es

theorem recorded_empty : Recorded {} [] [] :=
  ⟨represents_empty, fun _ h => (List.not_mem_nil h).elim, rfl⟩

theorem Log.ruleCategories_of_lt {log : Log} (h : ∀ p ∈ log.findings, p.1 ≤ log.samples.length)
    {id : Nat} (hid : log.samples.length < id) : log.ruleCategories id = [] := by
  rw [ruleCategories, List.filter_eq_nil_iff.mpr, List.map_nil]
  intro p hp
  have hne : ¬ p.1 = (id : Int) := by have := h p hp; omega
  simp [hne]

/-- A report more is an example more, whatever came before. -/
theorem recorded_record {s : Store} {log : Log} {es : List Example} (h : Recorded s log es)
    (text : String) (r : Report) :
    ∃ s' r', s.record text r = .ok (s', r') ∧ Recorded s' (log ++ reportCalls log text r)
      (es ++ [.labelled text (((r.items.map (·.finding)).filter isRule).map (·.category))]) := by
  obtain ⟨s', hrecord, hs'⟩ := represents_record h.represents text r
  refine ⟨s', _, hrecord, hs', ?_, ?_⟩
  · intro p hp
    rw [Log.findings_append, Log.findings_reportCalls, List.mem_append] at hp
    rw [Log.samples_append, Log.samples_reportCalls, List.length_append, List.length_singleton]
    rcases hp with hp | hp
    · have := h.known p hp
      omega
    · obtain ⟨i, -, rfl⟩ := List.mem_map.mp hp
      simp
  · have hes := (examples_of_represents h.represents).symm.trans h.examples
    rw [examples_of_represents hs', Log.samples_append, Log.samples_reportCalls, List.zipIdx_append,
      List.map_append, ← Except.ok.inj hes]
    refine congrArg Except.ok (congrArg₂ _ (List.map_congr_left ?_) ?_)
    · -- the numbers of the samples before are below the new one
      rintro ⟨x, id⟩ hx
      have hlt : id < 1 + log.samples.length := List.snd_lt_add_of_mem_zipIdx hx
      simp only [Log.ruleCategories_append]
      rw [Log.ruleCategories_reportCalls, if_neg (by omega), List.append_nil]
    · have hnew : 1 + log.samples.length = log.samples.length + 1 := Nat.add_comm ..
      simp only [List.zipIdx_singleton, List.map_singleton, Log.ruleCategories_append, hnew]
      rw [Log.ruleCategories_of_lt h.known (Nat.lt_succ_self _), Log.ruleCategories_reportCalls,
        if_pos rfl, List.nil_append]

theorem recorded_recordAll (as : List Analysis) {s : Store} {log : Log} {es : List Example}
    (h : Recorded s log es) :
    ∃ s' rs log', s.recordAll (as.map (·.source)) = some (.ok (s', rs)) ∧
      Recorded s' log' (es ++ as.map ruleExample) := by
  induction as generalizing s log es with
  | nil => exact ⟨s, [], log, rfl, by simpa using h⟩
  | cons a as ih =>
    obtain ⟨r, hr, hrules⟩ := report?_standard a
    obtain ⟨s₁, r₁, hrecord, h₁⟩ := recorded_record h a.text r
    obtain ⟨s', rs, log', hrun, h'⟩ := ih h₁
    refine ⟨s', r₁ :: rs, log', recordAll_cons (x := a.source) hr hrecord hrun, ?_⟩
    rw [hrules, List.append_assoc] at h'
    exact h'

/-! ## Main result -/

theorem Analysis.SameRules.ruleExample_eq {a b : Analysis} (h : a.SameRules b) :
    ruleExample a = ruleExample b := by
  simp only [ruleExample, ruleFindings, h.text, h.lexical, h.structural]

theorem map_ruleExample_eq {as bs : List Analysis} (h : List.Forall₂ Analysis.SameRules as bs) :
    as.map ruleExample = bs.map ruleExample := by
  induction h with
  | nil => rfl
  | cons hab _ ih => rw [List.map_cons, List.map_cons, hab.ruleExample_eq, ih]

/-- Whatever classifiers take part, the recorded sources give the same examples, one for each source
and labelled by the rule detectors. -/
theorem examples_independent_of_classifier (as bs : List Analysis)
    (h : List.Forall₂ Analysis.SameRules as bs) :
    ∃ s₁ rs₁ s₂ rs₂, recordAll {} (as.map (·.source)) = some (.ok (s₁, rs₁)) ∧
      recordAll {} (bs.map (·.source)) = some (.ok (s₂, rs₂)) ∧
      s₁.examples = s₂.examples ∧ s₁.examples = .ok (as.map ruleExample) := by
  obtain ⟨s₁, rs₁, log₁, hrun₁, h₁⟩ := recorded_recordAll as recorded_empty
  obtain ⟨s₂, rs₂, log₂, hrun₂, h₂⟩ := recorded_recordAll bs recorded_empty
  refine ⟨s₁, rs₁, s₂, rs₂, hrun₁, hrun₂, ?_, h₁.examples⟩
  rw [h₁.examples, h₂.examples, map_ruleExample_eq h]

/-- A classifier that was trained for some categories, on nothing to learn from. -/
def trainedFor (categories : List Category) (threshold : Float) : Learning.Classifier :=
  ⟨{}, some ⟨1, categories, threshold, ⟨[], []⟩, categories.map fun _ => ⟨[], 0⟩, 1, ⟨0, 0⟩⟩⟩

/-- A copy, a leak and a clean source, recorded by the rules alone. -/
def recordedByRules : List Analysis :=
  [⟨"copy.c", "strcpy(a, b);", ⟨true, false, false, false⟩, ⟨{}, none⟩⟩,
    ⟨"leak.c", "p = malloc(4);", ⟨true, false, false, true⟩, ⟨{}, none⟩⟩,
    ⟨"clean.c", "return 0;", ⟨true, false, false, false⟩, ⟨{}, none⟩⟩]

/-- The same sources with a classifier that is trained behind the first and once more behind the
second. -/
def recordedWhileTraining : List Analysis :=
  [⟨"copy.c", "strcpy(a, b);", ⟨true, false, true, true⟩, ⟨{}, none⟩⟩,
    ⟨"leak.c", "p = malloc(4);", ⟨true, false, true, false⟩, trainedFor [.infiniteLoop] 0⟩,
    ⟨"clean.c", "return 0;", ⟨true, false, true, true⟩, trainedFor Category.all 0.5⟩]

theorem examples_of_changing_classifier :
    recordedWhileTraining.map (fun a => a.classifier.model.map (·.labels))
        = [none, some [.infiniteLoop], some Category.all] ∧
      ∃ s₁ rs₁ s₂ rs₂, recordAll {} (recordedByRules.map (·.source)) = some (.ok (s₁, rs₁)) ∧
        recordAll {} (recordedWhileTraining.map (·.source)) = some (.ok (s₂, rs₂)) ∧
        s₁.examples = s₂.examples ∧
        s₁.examples = .ok [⟨"strcpy(a, b);", [.bufferOverflow]⟩, ⟨"p = malloc(4);", [.memoryLeak]⟩,
          ⟨"return 0;", []⟩] := by
  obtain ⟨s₁, rs₁, s₂, rs₂, hrun₁, hrun₂, hsame, hexamples⟩ :=
    examples_independent_of_classifier recordedByRules recordedWhileTraining
      (.cons ⟨rfl, rfl, rfl, rfl⟩ (.cons ⟨rfl, rfl, rfl, rfl⟩ (.cons ⟨rfl, rfl, rfl, rfl⟩ .nil)))
  refine ⟨rfl, s₁, rs₁, s₂, rs₂, hrun₁, hrun₂, hsame, hexamples.trans (congrArg Except.ok ?_)⟩
  decide +kernel

end DefectScan.Store
