import DefectScan.Store.Basic

/-!
# The examples of a store, sample by sample

The examples are gathered from the rows of a join, under the numbers of their samples. The rows of a
sample stand together, and the samples are in the order of their numbers. So each sample gives one
example, behind those before it, and its labels are those of its findings:

    s.examples = s.samples.rows.mapM s.exampleOf

This holds whatever the tables hold, and for the first label that cannot be read too.
-/

namespace DefectScan

namespace OrderedMap

variable {ν : Type} {k : Int} {start : ν} {f : ν → ν}

theorem entries_update (m : OrderedMap Int ν) :
    (m.update k start f).entries = updated k start f m.entries := rfl

/-- Entries of smaller keys are not touched. -/
theorem updated_append {es : List (Int × ν)} (h : ∀ e ∈ es, e.1 < k) (rest : List (Int × ν)) :
    updated k start f (es ++ rest) = es ++ updated k start f rest := by
  induction es with
  | nil => rfl
  | cons e es ih =>
    obtain ⟨a, x⟩ := e
    obtain ⟨hlt, h⟩ := List.forall_mem_cons.mp h
    have hlt : a < k := hlt
    rw [List.cons_append, updated, if_neg (by omega), if_neg (by omega), ih h]
    rfl

end OrderedMap

theorem Example.label_labelled (text : String) (cs : List Category) (c : Category) :
    (labelled text cs).label c = labelled text (cs ++ [c]) := by
  have horder : Category.inOrder (c :: Category.inOrder cs) = Category.inOrder (cs ++ [c]) := by
    refine List.filter_congr fun d _ => ?_
    rw [Bool.eq_iff_iff, List.contains_iff_mem, List.contains_iff_mem, List.mem_cons,
      Category.mem_inOrder, List.mem_append, List.mem_singleton, or_comm]
  exact congrArg (Example.mk text) horder

/-- Two outcomes that agree in what is made of them fail together or succeed together. -/
theorem cases_of_map_eq_map {ε α β γ : Type} {x : Except ε α} {y : Except ε β} {f : α → γ} {g : β → γ}
    (h : x.map f = y.map g) : (∃ e, x = .error e ∧ y = .error e) ∨
      ∃ a b, x = .ok a ∧ y = .ok b ∧ f a = g b := by
  cases x with
  | error e =>
    cases y with
    | error e' => exact .inl ⟨e, rfl, congrArg Except.error (Except.error.inj h).symm⟩
    | ok b => cases h
  | ok a =>
    cases y with
    | error e => cases h
    | ok b => exact .inr ⟨a, b, rfl, rfl, Except.ok.inj h⟩

namespace Store

/-- The categories of the findings that are labels of a sample. -/
def labels (s : Store) (id : Int) : Except StoreError (List Category) :=
  (s.findings.rows.filter fun row => isLabel id row.2).mapM fun row => readLabel row.2

/-- A sample with its labels. -/
def exampleOf (s : Store) (sample : Int × Sample) : Except StoreError Example :=
  (s.labels sample.1).map (.labelled sample.2.text)

variable {m : OrderedMap Int Example} {es : List (Int × Example)} (sample : Int × Sample)

theorem addLabelRow_some (row : Int × FindingRow) : addLabelRow m (sample, some row)
    = (readLabel row.2).map fun c => m.update sample.1 (.clean sample.2.text) (·.label c) := by
  show (readLabel row.2 >>= fun c => .ok (m.update sample.1 (.clean sample.2.text) (·.label c))) = _
  cases readLabel row.2 <;> rfl

theorem foldlM_labels (hes : ∀ e ∈ es, e.1 < sample.1) (rows : List (Int × FindingRow))
    {cs : List Category} (hm : m.entries = es ++ [(sample.1, .labelled sample.2.text cs)]) :
    ((rows.map fun row => (sample, some row)).foldlM addLabelRow m).map (·.entries)
      = (rows.mapM fun row => readLabel row.2).map fun more =>
          es ++ [(sample.1, .labelled sample.2.text (cs ++ more))] := by
  induction rows generalizing m cs with
  | nil =>
    show Except.ok m.entries = .ok (es ++ [(_, Example.labelled _ (cs ++ []))])
    rw [hm, List.append_nil]
  | cons row rows ih =>
    rw [List.map_cons, List.foldlM_cons, List.mapM_cons, addLabelRow_some]
    cases hread : readLabel row.2 with
    | error e => rfl
    | ok c =>
      have hupdate : (m.update sample.1 (.clean sample.2.text) (·.label c)).entries
          = es ++ [(sample.1, .labelled sample.2.text (cs ++ [c]))] := by
        rw [OrderedMap.entries_update, hm, OrderedMap.updated_append hes, OrderedMap.updated,
          if_pos rfl, Example.label_labelled]
      refine (ih hupdate).trans ?_
      cases rows.mapM fun row => readLabel row.2 with
      | error e => rfl
      | ok more =>
        show Except.ok (es ++ [(_, Example.labelled _ (cs ++ [c] ++ more))]) = .ok _
        rw [List.append_assoc]
        rfl

/-- The rows of a sample give one entry more. -/
theorem foldlM_withMatches (s : Store) (hm : ∀ e ∈ m.entries, e.1 < sample.1) :
    ((Table.withMatches s.findings.rows (fun sample row => isLabel sample.1 row.2) sample).foldlM
        addLabelRow m).map (·.entries)
      = (s.exampleOf sample).map fun e => m.entries ++ [(sample.1, e)] := by
  have hnew : ∀ f : Example → Example, (m.update sample.1 (.clean sample.2.text) f).entries
      = m.entries ++ [(sample.1, f (.clean sample.2.text))] := by
    intro f
    have happend : OrderedMap.updated sample.1 (.clean sample.2.text) f (m.entries ++ [])
        = m.entries ++ [(sample.1, f (.clean sample.2.text))] := OrderedMap.updated_append hm []
    rwa [List.append_nil] at happend
  rw [exampleOf, labels]
  cases hrows : s.findings.rows.filter fun row => isLabel sample.1 row.2 with
  | nil =>
    rw [Table.withMatches_of_nil hrows]
    exact congrArg Except.ok (hnew id)
  | cons row rows =>
    rw [Table.withMatches_of_cons hrows, List.map_cons, List.foldlM_cons, List.mapM_cons,
      addLabelRow_some]
    cases hread : readLabel row.2 with
    | error e => rfl
    | ok c =>
      have hone : (m.update sample.1 (.clean sample.2.text) (·.label c)).entries
          = m.entries ++ [(sample.1, .labelled sample.2.text [c])] := hnew (·.label c)
      refine (foldlM_labels sample hm rows hone).trans ?_
      cases rows.mapM fun row => readLabel row.2 <;> rfl

theorem foldlM_leftJoin (s : Store) {samples : List (Int × Sample)}
    (hsamples : samples.Pairwise fun a b => a.1 < b.1)
    (hm : ∀ e ∈ m.entries, ∀ sample ∈ samples, e.1 < sample.1) :
    ((Table.leftJoin samples s.findings.rows fun sample row => isLabel sample.1 row.2).foldlM
        addLabelRow m).map (·.entries.map (·.2))
      = (samples.mapM s.exampleOf).map fun more => m.entries.map (·.2) ++ more := by
  induction samples generalizing m with
  | nil =>
    show Except.ok (m.entries.map (·.2)) = .ok (m.entries.map (·.2) ++ [])
    rw [List.append_nil]
  | cons sample samples ih =>
    obtain ⟨hfirst, hsamples⟩ := List.pairwise_cons.mp hsamples
    have hgroup := foldlM_withMatches sample s fun e he => hm e he sample List.mem_cons_self
    rw [Table.leftJoin, List.flatMap_cons, List.foldlM_append, List.mapM_cons]
    rcases cases_of_map_eq_map hgroup with ⟨e, hfold, hexample⟩ | ⟨m', e, hfold, hexample, hentries⟩
    · rw [hfold, hexample]
      rfl
    · have hbelow : ∀ e ∈ m'.entries, ∀ later ∈ samples, e.1 < later.1 := by
        intro e he later hlater
        rw [hentries, List.mem_append, List.mem_singleton] at he
        rcases he with he | rfl
        · exact hm e he later (List.mem_cons_of_mem _ hlater)
        · exact hfirst later hlater
      rw [hfold, hexample]
      refine (ih hsamples hbelow).trans ?_
      cases samples.mapM s.exampleOf with
      | error e => rfl
      | ok more =>
        show Except.ok (m'.entries.map (·.2) ++ more) = .ok _
        rw [hentries, List.map_append, List.append_assoc]
        rfl

/-- Each sample is an example, with the labels that are found in it. -/
theorem examples_eq (s : Store) : s.examples = s.samples.rows.mapM s.exampleOf := by
  have hfold := foldlM_leftJoin (m := .empty) s s.samples.ordered.ascending
    fun _ he => absurd he List.not_mem_nil
  have hmap : s.examples = (s.labelRows.foldlM addLabelRow .empty).map (·.entries.map (·.2)) := by
    rw [examples]
    cases s.labelRows.foldlM addLabelRow .empty <;> rfl
  rw [hmap]
  refine hfold.trans ?_
  cases s.samples.rows.mapM s.exampleOf <;> rfl

end Store

end DefectScan
