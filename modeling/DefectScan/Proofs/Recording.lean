import DefectScan.Proofs.StoreLog

/-!
# Recording a report

A report is recorded as its source, then finding by finding, each followed by its fix. None of these
calls can be refused, since each names a number that was just given out. So recording always
succeeds, and it lengthens the log by the calls of the report (`represents_record`). A run of
recordings goes from one store to the next (`recordAll_cons`).
-/

namespace DefectScan.Store

/-- The calls that record an item whose finding gets the number `n`. -/
def itemCalls (sample n : Int) (i : Report.Item) : List Call :=
  .finding sample i.finding :: (i.fix.map (Call.fix n)).toList

/-- The calls that record items whose findings are numbered from `n`. -/
def itemsCalls (sample : Int) : Int → List Report.Item → List Call
  | _, [] => []
  | n, i :: is => itemCalls sample n i ++ itemsCalls sample (n + 1) is

/-- The calls that record a report behind a log. -/
def reportCalls (log : Log) (text : String) (r : Report) : List Call :=
  .sample ⟨r.name, text, r.hasDefects⟩
    :: itemsCalls (log.samples.length + 1) (log.findings.length + 1) r.items

namespace Log

theorem samples_append (log more : Log) : samples (log ++ more) = log.samples ++ samples more :=
  List.filterMap_append

theorem findings_append (log more : Log) : findings (log ++ more) = log.findings ++ findings more :=
  List.filterMap_append

theorem samples_itemCalls (sample n : Int) (i : Report.Item) :
    samples (itemCalls sample n i) = [] := by
  cases h : i.fix <;> simp [itemCalls, samples, h]

theorem findings_itemCalls (sample n : Int) (i : Report.Item) :
    findings (itemCalls sample n i) = [(sample, i.finding)] := by
  cases h : i.fix <;> simp [itemCalls, findings, h]

theorem samples_itemsCalls (sample : Int) (is : List Report.Item) (n : Int) :
    samples (itemsCalls sample n is) = [] := by
  induction is generalizing n with
  | nil => rfl
  | cons i is ih => rw [itemsCalls, samples_append, samples_itemCalls, ih]; rfl

theorem findings_itemsCalls (sample : Int) (is : List Report.Item) (n : Int) :
    findings (itemsCalls sample n is) = is.map fun i => (sample, i.finding) := by
  induction is generalizing n with
  | nil => rfl
  | cons i is ih => rw [itemsCalls, findings_append, findings_itemCalls, ih]; rfl

theorem samples_reportCalls (log : Log) (text : String) (r : Report) :
    samples (reportCalls log text r) = [⟨r.name, text, r.hasDefects⟩] :=
  congrArg (_ :: ·) (samples_itemsCalls _ r.items _)

theorem findings_reportCalls (log : Log) (text : String) (r : Report) :
    findings (reportCalls log text r)
      = r.items.map fun i => ((log.samples.length + 1 : Int), i.finding) :=
  findings_itemsCalls _ r.items _

end Log

theorem represents_addItem {s : Store} {log : Log} (h : Represents s log) {sample : Int}
    (hsample : 1 ≤ sample ∧ sample ≤ log.samples.length) (i : Report.Item) :
    ∃ s', addItem sample s i = .ok s' ∧
      Represents s' (log ++ itemCalls sample (log.findings.length + 1) i) := by
  obtain ⟨s₁, hadd, h₁⟩ := @represents_addFinding s log h sample i.finding hsample
  cases hfix : i.fix with
  | none =>
    refine ⟨s₁, ?_, ?_⟩
    · simp only [addItem, hadd, hfix]
      rfl
    · simpa [itemCalls, hfix] using h₁
  | some fix =>
    have hnumber : Log.Accepts (log ++ [.finding sample i.finding])
        (.fix (log.findings.length + 1) fix) := by
      constructor
      · omega
      · rw [Log.findings_append, List.length_append]
        exact Int.le_refl _
    obtain ⟨s₂, hadd₂, h₂⟩ := represents_addFix h₁ hnumber
    refine ⟨s₂, ?_, ?_⟩
    · simp only [addItem, hadd, hfix]
      change (do return (← s₁.addFix (log.findings.length + 1) fix).1) = _
      rw [hadd₂]
      rfl
    · simpa [itemCalls, hfix] using h₂

theorem represents_addItems (is : List Report.Item) :
    ∀ {s : Store} {log : Log}, Represents s log → ∀ {sample : Int},
      1 ≤ sample ∧ sample ≤ log.samples.length →
      ∃ s', is.foldlM (addItem sample) s = .ok s' ∧
        Represents s' (log ++ itemsCalls sample (log.findings.length + 1) is) := by
  induction is with
  | nil =>
    intro s log h sample _
    exact ⟨s, rfl, by simpa [itemsCalls] using h⟩
  | cons i is ih =>
    intro s log h sample hsample
    obtain ⟨s₁, hadd, h₁⟩ := represents_addItem h hsample i
    obtain ⟨s₂, hrest, h₂⟩ := ih h₁ (by
      rw [Log.samples_append, Log.samples_itemCalls, List.append_nil]
      exact hsample)
    refine ⟨s₂, ?_, ?_⟩
    · rw [List.foldlM_cons, hadd]
      exact hrest
    · have hnumber : ((Log.findings (log ++ itemCalls sample (log.findings.length + 1) i)).length : Int)
          = log.findings.length + 1 := by
        rw [Log.findings_append, Log.findings_itemCalls, List.length_append]
        rfl
      rw [hnumber, List.append_assoc] at h₂
      exact h₂

/-- Recording a report succeeds and lengthens the log by its calls. -/
theorem represents_record {s : Store} {log : Log} (h : Represents s log) (text : String)
    (r : Report) :
    ∃ s', s.record text r = .ok (s', { r with sample := some (log.samples.length + 1) }) ∧
      Represents s' (log ++ reportCalls log text r) := by
  obtain ⟨h₁, hid⟩ := represents_addSample h ⟨r.name, text, r.hasDefects⟩
  have hsample : (1 : Int) ≤ log.samples.length + 1 ∧ (log.samples.length + 1 : Int)
      ≤ (Log.samples (log ++ [.sample ⟨r.name, text, r.hasDefects⟩])).length := by
    rw [Log.samples_append, List.length_append]
    change _ ∧ _ ≤ ((log.samples.length + 1 : Nat) : Int)
    omega
  obtain ⟨s', hitems, h₂⟩ := represents_addItems r.items h₁ hsample
  refine ⟨s', ?_, ?_⟩
  · simp only [record, hid]
    rw [hitems]
    rfl
  · rw [Log.findings_append, List.append_assoc] at h₂
    simpa [reportCalls, Log.findings] using h₂

theorem recordAll_cons {s s₁ s₂ : Store} {x : Source} {sources : List Source} {r r₁ : Report}
    {rs : List Report} (hreport : x.engine.report? x.name x.text = some r)
    (hrecord : s.record x.text r = .ok (s₁, r₁))
    (hrest : s₁.recordAll sources = some (.ok (s₂, rs))) :
    s.recordAll (x :: sources) = some (.ok (s₂, r₁ :: rs)) := by
  have hsource : s.recordSource x = some (.ok (s₁, r₁)) := by
    rw [recordSource, hreport, Option.map_some, hrecord]
  unfold recordAll
  rw [hsource]
  simp only [hrest]
  rfl

end DefectScan.Store
