import DefectScan.Proofs.Binary64
import DefectScan.Proofs.SampleLabels
import Mathlib.Data.List.Forall2

/-!
# The store is a log

A store is read here against the list of the calls that it has accepted (`Log`). Nothing is ever
taken out of it and every kind of entry is numbered on its own. After any calls on a fresh store

* a call that names a number that was not given out fails and changes nothing, and any other call
  succeeds with the next number of its kind (`call_of_accepts`, `call_of_not_accepts`);
* a query gives every finding with each of its fixes, in the order of the log (`query_of_represents`);
* every sample is an example, labelled by what the two rule detectors found in it
  (`examples_of_represents`).

The step from one call to many is `Represents`: the three tables list the rows of the log's entries,
numbered from 1 without gaps (`Table.Lists`).
-/

namespace DefectScan.Store

/-! ## Tables that were filled row by row -/

/-- The rows of a table are those of a list, numbered from 1, and no other number was given out. -/
structure Table.Lists {α : Type} (t : Table α) (xs : List α) : Prop where
  rows : t.rows = (xs.zipIdx 1).map fun x => ((x.2 : Int), x.1)
  last : t.last = xs.length

namespace Table.Lists

variable {α : Type} {t : Table α} {xs : List α}

theorem empty : Lists (.empty : Table α) [] := ⟨rfl, rfl⟩

theorem insert (h : t.Lists xs) (x : α) :
    (t.insert x).1.Lists (xs ++ [x]) ∧ (t.insert x).2 = xs.length + 1 := by
  refine ⟨⟨?_, ?_⟩, ?_⟩
  · show t.rows ++ [(t.last + 1, x)] = _
    rw [h.rows, h.last, List.zipIdx_append, List.map_append]
    simp [Int.add_comm]
  · show t.last + 1 = _
    rw [h.last, List.length_append]
    rfl
  · show t.last + 1 = _
    rw [h.last]

theorem length_eq (h : t.Lists xs) : t.length = xs.length := by
  rw [length, h.rows, List.length_map, List.length_zipIdx]

theorem map_snd (h : t.Lists xs) : t.rows.map (·.2) = xs := by
  rw [h.rows, List.map_map]
  exact List.zipIdx_map_fst 1 xs

/-- The numbers of the rows go from 1 to their count. -/
theorem has_iff (h : t.Lists xs) (id : Int) : t.has id = true ↔ 1 ≤ id ∧ id ≤ xs.length := by
  have hnumbers : t.rows.map (·.1) = (List.range' 1 xs.length).map fun n : Nat => (n : Int) := by
    rw [h.rows, List.map_map, ← List.zipIdx_map_snd 1 xs, List.map_map]
    rfl
  have hmem : t.has id = true ↔ id ∈ t.rows.map (·.1) := by
    simp [has]
  rw [hmem, hnumbers, List.mem_map]
  constructor
  · rintro ⟨n, hn, rfl⟩
    have := List.mem_range'_1.mp hn
    omega
  · rintro ⟨hpos, hle⟩
    exact ⟨id.toNat, List.mem_range'_1.mpr (by omega), by omega⟩

end Table.Lists

/-! ## Calls and logs -/

/-- A call that records something. -/
inductive Call
  | sample (x : Sample)
  | finding (sample : Int) (f : Finding)
  | fix (finding : Int) (f : Fix)

/-- The store after a call, and what the call answers. -/
def call (s : Store) : Call → Store × Except StoreError Int
  | .sample x => ((s.addSample x).1, .ok (s.addSample x).2)
  | .finding id f =>
    match s.addFinding id f with
    | .ok (s', n) => (s', .ok n)
    | .error e => (s, .error e)
  | .fix id f =>
    match s.addFix id f with
    | .ok (s', n) => (s', .ok n)
    | .error e => (s, .error e)

/-- The store after several calls. -/
def run (s : Store) : List Call → Store
  | [] => s
  | c :: cs => run (s.call c).1 cs

/-- The calls that were accepted, in order. -/
abbrev Log := List Call

namespace Log

def samples (log : Log) : List Sample :=
  log.filterMap fun
    | .sample x => some x
    | _ => none

/-- The findings, each with the number of its sample. -/
def findings (log : Log) : List (Int × Finding) :=
  log.filterMap fun
    | .finding id f => some (id, f)
    | _ => none

/-- The fixes, each with the number of its finding. -/
def fixes (log : Log) : List (Int × Fix) :=
  log.filterMap fun
    | .fix id f => some (id, f)
    | _ => none

/-- Whether a call names only a number that was given out. -/
def Accepts (log : Log) : Call → Prop
  | .sample _ => True
  | .finding id _ => 1 ≤ id ∧ id ≤ log.samples.length
  | .fix id _ => 1 ≤ id ∧ id ≤ log.findings.length

instance (log : Log) : (c : Call) → Decidable (log.Accepts c)
  | .sample _ => .isTrue trivial
  | .finding id _ => inferInstanceAs (Decidable (1 ≤ id ∧ id ≤ log.samples.length))
  | .fix id _ => inferInstanceAs (Decidable (1 ≤ id ∧ id ≤ log.findings.length))

/-- The number of the entry that a call adds: numbers of a kind go up by one from 1. -/
def nextNumber (log : Log) : Call → Int
  | .sample _ => log.samples.length + 1
  | .finding _ _ => log.findings.length + 1
  | .fix _ _ => log.fixes.length + 1

/-- The log after several calls. -/
def after (log : Log) : List Call → Log
  | [] => log
  | c :: cs => after (if log.Accepts c then log ++ [c] else log) cs

/-- The fixes for one finding. -/
def fixesOf (log : Log) (id : Nat) : List Fix :=
  log.fixes.filterMap fun (n, f) => if n = id then some f else none

/-- A finding once for each of its fixes, or once alone. -/
def withFixes (log : Log) (f : Finding) (id : Nat) : List (Finding × Option Fix) :=
  match log.fixesOf id with
  | [] => [(f, none)]
  | fixes => fixes.map fun fix => (f, some fix)

/-- All findings with their fixes, in the order of their numbers. -/
def entries (log : Log) : List (Finding × Option Fix) :=
  (log.findings.zipIdx 1).flatMap fun ((_, f), id) => log.withFixes f id

end Log

/-! ## What is read back -/

/-- A recorded confidence reads back as the same number, and as nothing if it is no number. Only the
sign of a zero is not kept. -/
def SameConfidence : Option Float → Option Float → Prop
  | none, none => True
  | some x, none => x.isNaN = true
  | some x, some y => x.isNaN = false ∧ (y == x) = true ∧ (x ≠ -0.0 → y = x)
  | none, some _ => False

/-- What a finding with a fix is, read back from the store. -/
structure ReadsBack (recorded : Finding × Option Fix) (read : Report.Item) : Prop where
  category : read.finding.category = recorded.1.category
  line : read.finding.line = min recorded.1.line (2 ^ 63 - 1)
  description : read.finding.description = recorded.1.description
  severity : read.finding.severity = recorded.1.severity
  confidence : SameConfidence recorded.1.confidence read.finding.confidence
  detector : read.finding.detector = recorded.1.detector
  fix : read.fix = recorded.2.map fun fix =>
    { fix with category := recorded.1.category, line := min fix.line (2 ^ 63 - 1) }

/-! ## One call -/

/-- The tables hold the rows of the entries of a log. -/
structure Represents (s : Store) (log : Log) : Prop where
  samples : s.samples.Lists log.samples
  findings : s.findings.Lists (log.findings.map fun x => rowOfFinding x.1 x.2)
  fixes : s.fixes.Lists (log.fixes.map fun x => rowOfFix x.1 x.2)

theorem represents_empty : Represents {} [] := ⟨.empty, .empty, .empty⟩

theorem represents_addSample {s : Store} {log : Log} (h : Represents s log) (x : Sample) :
    Represents (s.addSample x).1 (log ++ [.sample x]) ∧ (s.addSample x).2 = log.samples.length + 1 := by
  obtain ⟨hlists, hid⟩ := h.samples.insert x
  refine ⟨⟨?_, ?_, ?_⟩, hid⟩
  · simpa [addSample, Log.samples] using hlists
  · simpa [addSample, Log.findings] using h.findings
  · simpa [addSample, Log.fixes] using h.fixes

theorem represents_addFinding {s : Store} {log : Log} (h : Represents s log) {id : Int} {f : Finding}
    (hid : log.Accepts (.finding id f)) :
    ∃ s', s.addFinding id f = .ok (s', log.findings.length + 1) ∧
      Represents s' (log ++ [.finding id f]) := by
  obtain ⟨hlists, hnumber⟩ := h.findings.insert (rowOfFinding id f)
  rw [List.length_map] at hnumber
  have hrow : s.samples.has (rowOfFinding id f).sample = true := (h.samples.has_iff id).mpr hid
  refine ⟨{ s with findings := (s.findings.insert (rowOfFinding id f)).1 }, ?_, ?_, ?_, ?_⟩
  · rw [addFinding, addFindingRow, if_pos hrow, ← hnumber]
  · simpa [Log.samples] using h.samples
  · simpa [Log.findings] using hlists
  · simpa [Log.fixes] using h.fixes

theorem represents_addFix {s : Store} {log : Log} (h : Represents s log) {id : Int} {f : Fix}
    (hid : log.Accepts (.fix id f)) :
    ∃ s', s.addFix id f = .ok (s', log.fixes.length + 1) ∧ Represents s' (log ++ [.fix id f]) := by
  obtain ⟨hlists, hnumber⟩ := h.fixes.insert (rowOfFix id f)
  rw [List.length_map] at hnumber
  have hrow : s.findings.has (rowOfFix id f).finding = true := by
    rw [h.findings.has_iff, List.length_map]
    exact hid
  refine ⟨{ s with fixes := (s.fixes.insert (rowOfFix id f)).1 }, ?_, ?_, ?_, ?_⟩
  · rw [addFix, addFixRow, if_pos hrow, ← hnumber]
  · simpa [Log.samples] using h.samples
  · simpa [Log.findings] using h.findings
  · simpa [Log.fixes] using hlists

theorem call_of_accepts {s : Store} {log : Log} (h : Represents s log) {c : Call}
    (hc : log.Accepts c) :
    Represents (s.call c).1 (log ++ [c]) ∧ (s.call c).2 = .ok (log.nextNumber c) := by
  cases c with
  | sample x =>
    obtain ⟨hrep, hid⟩ := represents_addSample h x
    exact ⟨hrep, congrArg Except.ok hid⟩
  | finding id f =>
    obtain ⟨s', hadd, hrep⟩ := represents_addFinding h hc
    simp only [call, hadd]
    exact ⟨hrep, rfl⟩
  | fix id f =>
    obtain ⟨s', hadd, hrep⟩ := represents_addFix h hc
    simp only [call, hadd]
    exact ⟨hrep, rfl⟩

theorem call_of_not_accepts {s : Store} {log : Log} (h : Represents s log) {c : Call}
    (hc : ¬ log.Accepts c) : s.call c = (s, .error .dangling) := by
  cases c with
  | sample x => exact absurd trivial hc
  | finding id f =>
    have hrow : ¬ s.samples.has id = true := by
      rw [h.samples.has_iff]
      exact hc
    simp [call, addFinding, addFindingRow, rowOfFinding, hrow]
  | fix id f =>
    have hrow : ¬ s.findings.has id = true := by
      rw [h.findings.has_iff, List.length_map]
      exact hc
    simp [call, addFix, addFixRow, rowOfFix, hrow]

/-! ## Many calls -/

theorem represents_run {s : Store} {log : Log} (h : Represents s log) (cs : List Call) :
    Represents (s.run cs) (log.after cs) := by
  induction cs generalizing s log with
  | nil => exact h
  | cons c cs ih =>
    rw [run, Log.after]
    by_cases hc : log.Accepts c
    · rw [if_pos hc]
      exact ih (call_of_accepts h hc).1
    · rw [if_neg hc, call_of_not_accepts h hc]
      exact ih h

/-! ## Reading -/

theorem mapM_eq_ok {ε α β : Type} {f : α → Except ε β} {g : α → β} {xs : List α}
    (h : ∀ x ∈ xs, f x = .ok (g x)) : xs.mapM f = .ok (xs.map g) := by
  induction xs with
  | nil => rfl
  | cons x xs ih =>
    rw [List.mapM_cons, h x List.mem_cons_self, ih fun y hy => h y (List.mem_cons_of_mem _ hy)]
    rfl

theorem parsed_category (table : String) (c : Category) :
    parsed table (Category.parse c.name) = .ok c := by
  rw [Category.parse, Category.ofName?_name]
  rfl

theorem parsed_severity (table : String) (x : Severity) :
    parsed table (Severity.parse x.name) = .ok x := by
  rw [Severity.parse, Severity.ofName?_name]
  rfl

theorem parsed_detector (table : String) (d : DetectorKind) :
    parsed table (DetectorKind.parse d.name) = .ok d := by
  rw [DetectorKind.parse, DetectorKind.ofName?_name]
  rfl

theorem parsed_edit (table : String) (e : Edit) : parsed table (Edit.parse e.name) = .ok e := by
  rw [Edit.parse, Edit.ofName?_name]
  rfl

theorem readLine_rowLine (table : String) (n : Nat) :
    readLine table (rowLine n) = .ok (min n maxLine) := by
  have hpos : ¬ rowLine n < 0 := by
    unfold rowLine
    omega
  rw [readLine, if_neg hpos]
  rfl

/-- A finding with a fix as its rows read back. -/
def recalled (recorded : Finding × Option Fix) : Report.Item where
  finding :=
    { recorded.1 with
      line := min recorded.1.line maxLine
      confidence := recorded.1.confidence.bind rowConfidence }
  fix := recorded.2.map fun fix =>
    { fix with category := recorded.1.category, line := min fix.line maxLine }

theorem readRows_rowOf (sample finding : Int) (f : Finding) (fix : Option Fix) :
    readRows (rowOfFinding sample f) (fix.map (rowOfFix finding)) = .ok (recalled (f, fix)) := by
  unfold readRows
  simp only [rowOfFinding, parsed_category, readLine_rowLine, parsed_severity, parsed_detector]
  cases fix with
  | none => rfl
  | some fix =>
    simp only [Option.map_some, rowOfFix, readLine_rowLine, parsed_edit]
    rfl

theorem sameConfidence_bind (c : Option Float) : SameConfidence c (c.bind rowConfidence) := by
  cases c with
  | none => trivial
  | some x =>
    cases hnan : x.isNaN with
    | true => simp only [Option.bind_some, rowConfidence, hnan, if_true, SameConfidence]
    | false =>
      simp only [Option.bind_some, rowConfidence, hnan, Bool.false_eq_true, if_false, SameConfidence]
      by_cases hneg : x = -0.0
      · subst hneg
        rw [Binary64.negZero_add_zero]
        exact ⟨trivial, Binary64.zero_beq_negZero, fun h => absurd rfl h⟩
      · rw [Binary64.add_zero_eq hnan hneg]
        exact ⟨trivial, Binary64.beq_self hnan, fun _ => rfl⟩

theorem readsBack_recalled (recorded : Finding × Option Fix) :
    ReadsBack recorded (recalled recorded) where
  category := rfl
  line := rfl
  description := rfl
  severity := rfl
  confidence := sameConfidence_bind recorded.1.confidence
  detector := rfl
  fix := rfl

/-! ## Queries -/

/-- A finding with its fixes, as a query joins them. -/
def joinFixes (s : Store) : Int × FindingRow → List ((Int × FindingRow) × Option (Int × FixRow)) :=
  Table.withMatches s.fixes.rows fun row f => f.2.finding = row.1

theorem selected_eq (s : Store) (category : Option Category) : s.selected category
    = (s.findings.rows.filter fun row => chooses category row.2).flatMap s.joinFixes :=
  Table.filter_leftJoin _ _ _ fun row : Int × FindingRow => chooses category row.2

theorem filter_fixes {s : Store} {log : Log} (h : Represents s log) (id : Nat) :
    (s.fixes.rows.filter fun f => f.2.finding = (id : Int)).map (·.2)
      = (log.fixesOf id).map (rowOfFix id) := by
  have hrows : (s.fixes.rows.filter fun f => f.2.finding = (id : Int)).map (·.2)
      = (s.fixes.rows.map (·.2)).filter fun f => f.finding = (id : Int) := by
    rw [List.filter_map]
    rfl
  rw [hrows, h.fixes.map_snd, Log.fixesOf]
  induction log.fixes with
  | nil => rfl
  | cons entry rest ih =>
    obtain ⟨n, f⟩ := entry
    rw [List.map_cons, List.filter_cons, List.filterMap_cons, ih]
    by_cases hn : n = id
    · subst hn
      simp [rowOfFix]
    · simp [rowOfFix, hn]

/-- The rows of a finding, without their numbers. -/
theorem joinFixes_eq {s : Store} {log : Log} (h : Represents s log) (sample : Int) (f : Finding)
    (id : Nat) :
    (s.joinFixes (id, rowOfFinding sample f)).map (fun joined => (joined.1.2, joined.2.map (·.2)))
      = (log.withFixes f id).map fun x => (rowOfFinding sample x.1, x.2.map (rowOfFix id)) := by
  have hfilter := filter_fixes h id
  unfold joinFixes Log.withFixes
  cases hrows : s.fixes.rows.filter fun f => f.2.finding = (id : Int) with
  | nil =>
    rw [hrows] at hfilter
    rw [Table.withMatches_of_nil hrows, List.map_eq_nil_iff.mp hfilter.symm]
    rfl
  | cons row rows =>
    rw [hrows] at hfilter
    rw [Table.withMatches_of_cons hrows]
    cases hfixes : log.fixesOf id with
    | nil =>
      rw [hfixes] at hfilter
      cases hfilter
    | cons fix fixes =>
      rw [hfixes] at hfilter
      have hmap := congrArg (List.map fun row => (rowOfFinding sample f, some row)) hfilter
      simpa [List.map_map, Function.comp_def] using hmap

theorem mapM_readRows {s : Store} {log : Log} (h : Represents s log)
    (rows : List ((Int × Finding) × Nat)) :
    (rows.flatMap fun x => s.joinFixes (x.2, rowOfFinding x.1.1 x.1.2)).mapM
        (fun joined => readRows joined.1.2 (joined.2.map (·.2)))
      = .ok ((rows.flatMap fun x => log.withFixes x.1.2 x.2).map recalled) := by
  induction rows with
  | nil => rfl
  | cons row rows ih =>
    obtain ⟨⟨sample, f⟩, id⟩ := row
    have hone : (s.joinFixes (id, rowOfFinding sample f)).mapM
          (fun joined => readRows joined.1.2 (joined.2.map (·.2)))
        = .ok ((log.withFixes f id).map recalled) := by
      have hrows : ((s.joinFixes (id, rowOfFinding sample f)).map fun joined =>
            (joined.1.2, joined.2.map (·.2))).mapM (fun x => readRows x.1 x.2)
          = .ok ((log.withFixes f id).map recalled) := by
        rw [joinFixes_eq h, List.mapM_map]
        exact mapM_eq_ok fun x _ => readRows_rowOf sample id x.1 x.2
      rwa [List.mapM_map] at hrows
    simp only [List.flatMap_cons, List.mapM_append, hone, ih, List.map_append]
    rfl

theorem rows_findings {s : Store} {log : Log} (h : Represents s log) : s.findings.rows
    = (log.findings.zipIdx 1).map fun x => ((x.2 : Int), rowOfFinding x.1.1 x.1.2) := by
  rw [h.findings.rows, List.zipIdx_map, List.map_map]
  rfl

theorem query_of_represents {s : Store} {log : Log} (h : Represents s log) :
    s.query none = .ok (log.entries.map recalled) := by
  have hselected : s.selected none = (log.findings.zipIdx 1).flatMap fun x =>
      s.joinFixes (x.2, rowOfFinding x.1.1 x.1.2) := by
    rw [selected_eq, rows_findings h]
    simp only [chooses, List.filter_true, List.flatMap_map]
  rw [query, hselected, mapM_readRows h]
  rfl

/-! ## Examples -/

/-- The categories that the rule detectors found in a sample. -/
def Log.ruleCategories (log : Log) (id : Nat) : List Category :=
  (log.findings.filter fun (n, f) => n = id && (f.detector = .lexical || f.detector = .structural)).map
    (·.2.category)

theorem contains_unlabelling (d : DetectorKind) :
    (!(unlabelling.map (·.name)).contains d.name) = (d = .lexical || d = .structural) := by
  cases d <;> decide

theorem labels_of_represents {s : Store} {log : Log} (h : Represents s log) (id : Nat) :
    s.labels id = .ok (log.ruleCategories id) := by
  rw [labels, rows_findings h]
  simp only [List.filter_map, List.mapM_map, Function.comp_def, isLabel, readLabel, rowOfFinding,
    contains_unlabelling]
  rw [mapM_eq_ok fun x _ => parsed_category findingTable x.1.2.category, Log.ruleCategories]
  conv_rhs => rw [← List.zipIdx_map_fst 1 log.findings, List.filter_map, List.map_map]
  rfl

theorem examples_of_represents {s : Store} {log : Log} (h : Represents s log) :
    s.examples = .ok ((log.samples.zipIdx 1).map fun x =>
      .labelled x.1.text (log.ruleCategories x.2)) := by
  rw [examples_eq, h.samples.rows, List.mapM_map]
  refine mapM_eq_ok fun x _ => ?_
  show (s.labels x.2).map (Example.labelled x.1.text) = _
  rw [labels_of_represents h]
  rfl

theorem Log.mem_ruleCategories {log : Log} {id : Nat} {c : Category} :
    c ∈ log.ruleCategories id ↔ ∃ f, ((id : Int), f) ∈ log.findings ∧ f.category = c ∧
      (f.detector = .lexical ∨ f.detector = .structural) := by
  simp only [Log.ruleCategories, List.mem_map, List.mem_filter, Bool.and_eq_true, Bool.or_eq_true,
    decide_eq_true_eq]
  constructor
  · rintro ⟨⟨n, f⟩, ⟨hmem, rfl, hdet⟩, hcat⟩
    exact ⟨f, hmem, hcat, hdet⟩
  · rintro ⟨f, hmem, hcat, hdet⟩
    exact ⟨(id, f), ⟨hmem, rfl, hdet⟩, hcat⟩

theorem forall₂_readsBack (recorded : List (Finding × Option Fix)) :
    List.Forall₂ ReadsBack recorded (recorded.map recalled) := by
  rw [List.forall₂_map_right_iff, List.forall₂_same]
  exact fun r _ => readsBack_recalled r

/-! ## Main result -/

/-- After any calls, the store answers as the log of the accepted ones. -/
theorem run_refines_log (calls : List Call) :
    (∀ c, if (Log.after [] calls).Accepts c then
        ((run {} calls).call c).2 = .ok ((Log.after [] calls).nextNumber c)
      else (run {} calls).call c = (run {} calls, .error .dangling)) ∧
    (∃ items, (run {} calls).query none = .ok items ∧
      List.Forall₂ ReadsBack (Log.after [] calls).entries items) ∧
    (∃ es, (run {} calls).examples = .ok es ∧
      es.map (·.sourceText) = (Log.after [] calls).samples.map (·.text) ∧
      ∀ (k : Nat) (e : Example), es[k]? = some e → e.labels.Sublist Category.all ∧
        ∀ c, c ∈ e.labels ↔ ∃ f, (((k + 1 : Nat) : Int), f) ∈ (Log.after [] calls).findings ∧
          f.category = c ∧ (f.detector = .lexical ∨ f.detector = .structural)) ∧
    (run {} calls).samples.length = (Log.after [] calls).samples.length := by
  have h : Represents (run {} calls) (Log.after [] calls) := represents_run represents_empty calls
  refine ⟨?_, ?_, ?_, ?_⟩
  · intro c
    by_cases hc : (Log.after [] calls).Accepts c
    · rw [if_pos hc]
      exact (call_of_accepts h hc).2
    · rw [if_neg hc]
      exact call_of_not_accepts h hc
  · exact ⟨_, query_of_represents h, forall₂_readsBack _⟩
  · refine ⟨_, examples_of_represents h, ?_, ?_⟩
    · rw [List.map_map]
      conv_rhs => rw [← List.zipIdx_map_fst 1 (Log.after [] calls).samples, List.map_map]
      rfl
    · intro k e he
      rw [List.getElem?_map, List.getElem?_zipIdx, Option.map_map, Option.map_eq_some_iff] at he
      obtain ⟨x, -, rfl⟩ := he
      refine ⟨List.filter_sublist, fun c => ?_⟩
      change c ∈ Category.inOrder _ ↔ _
      rw [Category.mem_inOrder, Log.mem_ruleCategories, Nat.add_comm 1 k]
  · exact h.samples.length_eq

/-- One sample with a finding of a rule and one of the classifier; a finding for a sample that is not
there is refused in between. -/
theorem examples_after_refused_call :
    ∃ e, (run {} [.sample ⟨"a.c", "int x;", true⟩,
        .finding 1 (.atLine .memoryLeak 1 "lost" .lexical),
        .finding 2 (.atLine .bufferOverflow 1 "none" .lexical),
        .finding 1 (.atLine .nullPointer 0 "likely" .classifier)]).examples = .ok [e] ∧
      .memoryLeak ∈ e.labels ∧ .nullPointer ∉ e.labels := by
  obtain ⟨-, -, ⟨es, hes, htexts, hlabels⟩, -⟩ := run_refines_log
    [.sample ⟨"a.c", "int x;", true⟩, .finding 1 (.atLine .memoryLeak 1 "lost" .lexical),
      .finding 2 (.atLine .bufferOverflow 1 "none" .lexical),
      .finding 1 (.atLine .nullPointer 0 "likely" .classifier)]
  have hlength := congrArg List.length htexts
  rw [List.length_map] at hlength
  obtain ⟨e, rfl⟩ := List.length_eq_one_iff.mp hlength
  obtain ⟨-, hmem⟩ := hlabels 0 e rfl
  refine ⟨e, hes, (hmem _).mpr ⟨_, List.mem_cons_self, rfl, .inl rfl⟩, ?_⟩
  rw [hmem]
  rintro ⟨f, hf, hcat, hdet⟩
  rcases List.mem_cons.mp hf with hf | hf
  · rw [(Prod.mk.inj hf).2] at hcat
    cases hcat
  · rw [(Prod.mk.inj (List.mem_singleton.mp hf)).2] at hdet
    rcases hdet with hdet | hdet <;> cases hdet

end DefectScan.Store
