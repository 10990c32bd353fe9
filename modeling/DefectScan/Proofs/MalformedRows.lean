import DefectScan.Proofs.StoreLog

/-!
# Rows that this program did not write

The tables may hold anything: names that stand for nothing, lines below zero, fixes for findings that
are not there. A query reads the rows that it selects column by column, so its outcome is known from
the first column that is malformed (`Checked`):

    query filter  =  the items of the selected rows     if none of them is malformed
                     corrupt table flaw                 at the first flaw, finding by finding, each
                                                        finding before its fixes

Which one is first is said by the numbers of the rows, which may have gaps (`FirstFlaw`). A category is
chosen by its written name, but a row that is read has one of the seven categories and is written with
the name of this one. So a query for a category gives a part of the query for all.
-/

namespace DefectScan

/-! ## Flaws of rows -/

/-- What is wrong with a column that should hold the name of one of some values. -/
def nameFlaw {α : Type} (kind : String → NameError) (all : List α) (name : α → String)
    (written : String) : Option RowFlaw :=
  if all.any (name · = written) then none else some (.name (kind written))

/-- What is wrong with a column that should hold a line. -/
def lineFlaw (n : Int) : Option RowFlaw := if n < 0 then some (.negative n) else none

/-- The flaw of the first malformed column. -/
def FindingRow.flaw? (row : FindingRow) : Option RowFlaw :=
  (nameFlaw .category Category.all Category.name row.category).or <|
  (lineFlaw row.line).or <|
  (nameFlaw .severity Severity.all Severity.name row.severity).or <|
  nameFlaw .detector DetectorKind.all DetectorKind.name row.detector

def FixRow.flaw? (row : FixRow) : Option RowFlaw :=
  (lineFlaw row.line).or (nameFlaw .edit Edit.all Edit.name row.edit)

@[mk_iff]
structure FindingRow.WellFormed (row : FindingRow) : Prop where
  category : ∃ c : Category, c.name = row.category
  line : 0 ≤ row.line
  severity : ∃ x : Severity, x.name = row.severity
  detector : ∃ d : DetectorKind, d.name = row.detector

@[mk_iff]
structure FixRow.WellFormed (row : FixRow) : Prop where
  line : 0 ≤ row.line
  edit : ∃ e : Edit, e.name = row.edit

theorem nameFlaw_eq_none_iff {α : Type} {kind : String → NameError} {all : List α}
    {name : α → String} (hall : ∀ x, x ∈ all) (written : String) :
    nameFlaw kind all name written = none ↔ ∃ x, name x = written := by
  simp [nameFlaw, hall]

theorem lineFlaw_eq_none_iff (n : Int) : lineFlaw n = none ↔ 0 ≤ n := by
  simp [lineFlaw]

theorem Severity.mem_all (x : Severity) : x ∈ all := by cases x <;> decide

theorem DetectorKind.mem_all (d : DetectorKind) : d ∈ all := by cases d <;> decide

theorem Edit.mem_all (e : Edit) : e ∈ all := by cases e <;> decide

theorem FindingRow.flaw?_eq_none_iff (row : FindingRow) : row.flaw? = none ↔ row.WellFormed := by
  simp [flaw?, wellFormed_iff, nameFlaw_eq_none_iff Category.mem_all,
    nameFlaw_eq_none_iff Severity.mem_all, nameFlaw_eq_none_iff DetectorKind.mem_all,
    lineFlaw_eq_none_iff]

theorem FixRow.flaw?_eq_none_iff (row : FixRow) : row.flaw? = none ↔ row.WellFormed := by
  simp [flaw?, wellFormed_iff, nameFlaw_eq_none_iff Edit.mem_all, lineFlaw_eq_none_iff]

/-! ## What the rows hold -/

/-- A fix as its row is written. -/
structure Fix.Holds (row : FixRow) (f : Fix) : Prop where
  line : (f.line : Int) = row.line
  currentText : f.currentText = row.currentText
  replacementText : f.replacementText = row.replacementText
  edit : f.edit.name = row.edit
  note : f.note = row.note

/-- An item as its rows are written; the fix has the category of the finding. -/
structure Report.Item.Holds (joined : (Int × FindingRow) × Option (Int × FixRow)) (i : Report.Item) :
    Prop where
  category : i.finding.category.name = joined.1.2.category
  line : (i.finding.line : Int) = joined.1.2.line
  description : i.finding.description = joined.1.2.description
  severity : i.finding.severity.name = joined.1.2.severity
  confidence : i.finding.confidence = joined.1.2.confidence
  detector : i.finding.detector.name = joined.1.2.detector
  fix : Option.Rel (fun row f => Fix.Holds row.2 f ∧ f.category = i.finding.category) joined.2 i.fix

namespace Store

/-! ## Reading -/

/-- Where there is no flaw, a value is read that is meant; a flaw ends the reading. -/
inductive Checked {α : Type} (meant : α → Prop) : Option StoreError → Except StoreError α → Prop
  | value {x : α} (h : meant x) : Checked meant none (.ok x)
  | refused (e : StoreError) : Checked meant (some e) (.error e)

theorem Checked.bind {α β : Type} {meant : α → Prop} {meant' : β → Prop}
    {flaw flaw' : Option StoreError} {read : Except StoreError α} {next : α → Except StoreError β}
    (h : Checked meant flaw read) (hnext : ∀ x, meant x → Checked meant' flaw' (next x)) :
    Checked meant' (flaw.or flaw') (read >>= next) := by
  cases h with
  | value hx => exact hnext _ hx
  | refused e => exact .refused e

theorem Checked.of_ok {α : Type} {meant : α → Prop} {flaw : Option StoreError} {x : α}
    (h : Checked meant flaw (.ok x)) : meant x := by
  cases h with
  | value hx => exact hx

theorem checked_name {α : Type} (table : String) (kind : String → NameError) {all : List α}
    {name : α → String} {written : String} {parse : Except NameError α}
    (hparse : parse = (all.find? (name · = written)).elim (.error (kind written)) .ok) :
    Checked (name · = written) ((nameFlaw kind all name written).map (.corrupt table))
      (parsed table parse) := by
  subst hparse
  cases hfind : all.find? (name · = written) with
  | some x =>
    have hname : name x = written := by simpa using List.find?_some hfind
    have hany : all.any (name · = written) = true :=
      List.any_eq_true.mpr ⟨x, List.mem_of_find?_eq_some hfind, by simpa using hname⟩
    rw [nameFlaw, if_pos hany]
    exact .value hname
  | none =>
    have hany : ¬ all.any (name · = written) = true := by
      simpa using List.find?_eq_none.mp hfind
    rw [nameFlaw, if_neg hany]
    exact .refused _

theorem checked_category (table written : String) :
    Checked (·.name = written) ((nameFlaw .category Category.all Category.name written).map (.corrupt table))
      (parsed table (Category.parse written)) := by
  apply checked_name
  unfold Category.parse Category.ofName?
  cases Category.all.find? (·.name = written) <;> rfl

theorem checked_severity (table written : String) :
    Checked (·.name = written) ((nameFlaw .severity Severity.all Severity.name written).map (.corrupt table))
      (parsed table (Severity.parse written)) := by
  apply checked_name
  unfold Severity.parse Severity.ofName?
  cases Severity.all.find? (·.name = written) <;> rfl

theorem checked_detector (table written : String) :
    Checked (·.name = written)
      ((nameFlaw .detector DetectorKind.all DetectorKind.name written).map (.corrupt table))
      (parsed table (DetectorKind.parse written)) := by
  apply checked_name
  unfold DetectorKind.parse DetectorKind.ofName?
  cases DetectorKind.all.find? (·.name = written) <;> rfl

theorem checked_edit (table written : String) :
    Checked (·.name = written) ((nameFlaw .edit Edit.all Edit.name written).map (.corrupt table))
      (parsed table (Edit.parse written)) := by
  apply checked_name
  unfold Edit.parse Edit.ofName?
  cases Edit.all.find? (·.name = written) <;> rfl

theorem checked_line (table : String) (n : Int) :
    Checked (fun line : Nat => (line : Int) = n) ((lineFlaw n).map (.corrupt table))
      (readLine table n) := by
  unfold lineFlaw readLine
  split
  · exact .refused _
  · exact .value (by omega)

/-- The first flaw of a finding that is joined with a fix. -/
def flawOf (joined : (Int × FindingRow) × Option (Int × FixRow)) : Option StoreError :=
  (joined.1.2.flaw?.map (.corrupt findingTable)).or
    (joined.2.bind fun row => row.2.flaw?.map (.corrupt fixTable))

theorem checked_readRows (joined : (Int × FindingRow) × Option (Int × FixRow)) :
    Checked (Report.Item.Holds joined) (flawOf joined)
      (readRows joined.1.2 (joined.2.map (·.2))) := by
  obtain ⟨⟨id, row⟩, fixRow⟩ := joined
  simp only [flawOf, FindingRow.flaw?, Option.map_or, Option.or_assoc]
  refine (checked_category _ _).bind fun category hcategory => ?_
  refine (checked_line _ _).bind fun line hline => ?_
  refine (checked_severity _ _).bind fun severity hseverity => ?_
  refine (checked_detector _ _).bind fun detector hdetector => ?_
  cases fixRow with
  | none => exact .value ⟨hcategory, hline, rfl, hseverity, rfl, hdetector, .none⟩
  | some fixRow =>
    simp only [Option.bind_some, FixRow.flaw?, Option.map_or]
    refine (checked_line _ _).bind fun line' hline' => ?_
    rw [← Option.or_none (o := Option.map _ (nameFlaw _ _ _ fixRow.2.edit))]
    refine (checked_edit _ _).bind fun edit hedit => ?_
    exact .value ⟨hcategory, hline, rfl, hseverity, rfl, hdetector,
      .some ⟨⟨hline', rfl, rfl, hedit, rfl⟩, rfl⟩⟩

theorem checked_mapM {α β : Type} {meant : α → β → Prop} {flaw : α → Option StoreError}
    {read : α → Except StoreError β} (h : ∀ x, Checked (meant x) (flaw x) (read x)) (xs : List α) :
    Checked (List.Forall₂ meant xs) (xs.findSome? flaw) (xs.mapM read) := by
  induction xs with
  | nil => exact .value .nil
  | cons x xs ih =>
    have hflaw : (x :: xs).findSome? flaw = (flaw x).or ((xs.findSome? flaw).or none) := by
      rw [List.findSome?_cons, Option.or_none]
      cases flaw x <;> rfl
    rw [hflaw, List.mapM_cons]
    refine (h x).bind fun y hy => ?_
    refine ih.bind fun ys hys => ?_
    exact .value (.cons hy hys)

/-! ## Rows in their order -/

/-- What is found first in a table is found at the row with the smallest number. -/
theorem findSome?_rows_eq_some_iff {α β : Type} (t : Table α) (f : Int × α → Option β) (b : β) :
    t.rows.findSome? f = some b ↔ ∃ row ∈ t.rows, f row = some b ∧
      ∀ other ∈ t.rows, other.1 < row.1 → f other = none := by
  have hascending := t.ordered.ascending
  constructor
  · intro h
    obtain ⟨before, row, after, hsplit, hrow, hnone⟩ := List.findSome?_eq_some_iff.mp h
    rw [hsplit] at hascending ⊢
    obtain ⟨-, hafter, -⟩ := List.pairwise_append.mp hascending
    refine ⟨row, by simp, hrow, ?_⟩
    intro other hother hlt
    rcases List.mem_append.mp hother with h | h
    · exact hnone other h
    · rcases List.mem_cons.mp h with rfl | h
      · exact absurd hlt (Int.lt_irrefl _)
      · exact absurd (Int.lt_trans hlt ((List.pairwise_cons.mp hafter).1 other h)) (Int.lt_irrefl _)
  · rintro ⟨row, hmem, hrow, hnone⟩
    obtain ⟨before, after, hsplit⟩ := List.append_of_mem hmem
    refine List.findSome?_eq_some_iff.mpr ⟨before, row, after, hsplit, hrow, ?_⟩
    intro other hother
    rw [hsplit] at hascending
    have hlt := (List.pairwise_append.mp hascending).2.2 other hother row List.mem_cons_self
    exact hnone other (by rw [hsplit]; exact List.mem_append_left _ hother) hlt

theorem findSome?_filter {α β : Type} (p : α → Bool) (f : α → Option β) (xs : List α) :
    (xs.filter p).findSome? f = xs.findSome? fun x => if p x then f x else none := by
  induction xs with
  | nil => rfl
  | cons x xs ih => by_cases hp : p x = true <;> simp [hp, List.findSome?_cons, ih]

theorem findSome?_flatMap {α β γ : Type} (g : α → List β) (f : β → Option γ) (xs : List α) :
    (xs.flatMap g).findSome? f = xs.findSome? fun x => (g x).findSome? f := by
  induction xs with
  | nil => rfl
  | cons x xs ih =>
    rw [List.flatMap_cons, List.findSome?_append, List.findSome?_cons, ih]
    cases (g x).findSome? f <;> rfl

/-- Whether a query reads a finding: one for a category asks for its name. -/
def Selects (filter : Option Category) (row : FindingRow) : Prop :=
  ∀ c ∈ filter, row.category = c.name

theorem chooses_iff (filter : Option Category) (row : FindingRow) :
    chooses filter row = true ↔ Selects filter row := by
  cases filter <;> simp [chooses, Selects]

instance (filter : Option Category) (row : FindingRow) : Decidable (Selects filter row) :=
  decidable_of_iff _ (chooses_iff filter row)

/-- A row comes before another if its finding does, or its fix for the same finding. -/
def InOrder (a b : (Int × FindingRow) × Option (Int × FixRow)) : Prop :=
  a.1.1 < b.1.1 ∨ a.1 = b.1 ∧ ∀ f ∈ a.2, ∀ f' ∈ b.2, f.1 < f'.1

theorem pairwise_selected (s : Store) (filter : Option Category) :
    (s.selected filter).Pairwise InOrder := by
  rw [selected_eq, List.pairwise_flatMap]
  constructor
  · intro row _
    unfold joinFixes Table.withMatches
    split
    · exact List.pairwise_singleton _ _
    · rw [List.pairwise_map]
      refine (s.fixes.ordered.ascending.sublist List.filter_sublist).imp fun {a b} hlt => ?_
      refine .inr ⟨rfl, ?_⟩
      rintro f ⟨⟩ f' ⟨⟩
      exact hlt
  · refine (s.findings.ordered.ascending.sublist List.filter_sublist).imp fun {a b} hlt => ?_
    intro x hx y hy
    left
    rw [Table.fst_of_mem_withMatches hx, Table.fst_of_mem_withMatches hy]
    exact hlt

/-! ## The first flaw -/

/-- The first flaw of a finding and of all its fixes. -/
def flawAt (s : Store) (row : Int × FindingRow) : Option StoreError :=
  (row.2.flaw?.map (.corrupt findingTable)).or
    (s.fixes.rows.findSome? fun f =>
      if f.2.finding = row.1 then f.2.flaw?.map (.corrupt fixTable) else none)

theorem findSome?_joinFixes (s : Store) (row : Int × FindingRow) :
    (s.joinFixes row).findSome? flawOf = s.flawAt row := by
  have hfixes : (s.fixes.rows.findSome? fun f =>
      if f.2.finding = row.1 then f.2.flaw?.map (StoreError.corrupt fixTable) else none)
      = (s.fixes.rows.filter fun f => f.2.finding = row.1).findSome? fun f =>
          f.2.flaw?.map (.corrupt fixTable) := by
    simp [findSome?_filter]
  unfold joinFixes flawAt
  rw [hfixes]
  cases hrows : s.fixes.rows.filter fun f => f.2.finding = row.1 with
  | nil =>
    rw [Table.withMatches_of_nil hrows]
    simp [flawOf]
  | cons f fs =>
    rw [Table.withMatches_of_cons hrows]
    cases hrow : row.2.flaw? with
    | none =>
      simp only [List.findSome?_map, Function.comp_def, flawOf, hrow, Option.map_none, Option.none_or,
        Option.bind_some]
    | some flaw => simp [flawOf, hrow]

theorem findSome?_selected (s : Store) (filter : Option Category) :
    (s.selected filter).findSome? flawOf = s.findings.rows.findSome? fun row =>
      if Selects filter row.2 then s.flawAt row else none := by
  rw [selected_eq, findSome?_flatMap, findSome?_filter]
  simp only [findSome?_joinFixes, chooses_iff]

/-- A finding is well formed, and so are its fixes. -/
structure SoundRow (s : Store) (row : Int × FindingRow) : Prop where
  finding : row.2.WellFormed
  fixes : ∀ f ∈ s.fixes.rows, f.2.finding = row.1 → f.2.WellFormed

/-- All findings that a query selects are well formed together with their fixes. -/
def Sound (s : Store) (filter : Option Category) : Prop :=
  ∀ row ∈ s.findings.rows, Selects filter row.2 → s.SoundRow row

/-- The same for the findings whose number is below one. -/
def SoundBelow (s : Store) (filter : Option Category) (id : Int) : Prop :=
  ∀ row ∈ s.findings.rows, row.1 < id → Selects filter row.2 → s.SoundRow row

/-- The first malformed column, by the numbers of the findings, and in the fixes of a finding, by
their numbers, after the finding itself. -/
inductive FirstFlaw (s : Store) (filter : Option Category) : StoreError → Prop
  | finding {row : Int × FindingRow} {flaw : RowFlaw} (hrow : row ∈ s.findings.rows)
      (hbefore : s.SoundBelow filter row.1) (hselected : Selects filter row.2)
      (hflaw : row.2.flaw? = some flaw) : FirstFlaw s filter (.corrupt findingTable flaw)
  | fix {row : Int × FindingRow} {fix : Int × FixRow} {flaw : RowFlaw}
      (hrow : row ∈ s.findings.rows) (hbefore : s.SoundBelow filter row.1)
      (hselected : Selects filter row.2) (hwell : row.2.WellFormed) (hfix : fix ∈ s.fixes.rows)
      (hfinding : fix.2.finding = row.1)
      (hearlier : ∀ f ∈ s.fixes.rows, f.1 < fix.1 → f.2.finding = row.1 → f.2.WellFormed)
      (hflaw : fix.2.flaw? = some flaw) : FirstFlaw s filter (.corrupt fixTable flaw)

theorem flawAt_eq_none_iff (s : Store) (row : Int × FindingRow) :
    s.flawAt row = none ↔ s.SoundRow row := by
  have hiff : s.flawAt row = none ↔
      row.2.WellFormed ∧ ∀ f ∈ s.fixes.rows, f.2.finding = row.1 → f.2.WellFormed := by
    simp [flawAt, FindingRow.flaw?_eq_none_iff, FixRow.flaw?_eq_none_iff]
  rw [hiff]
  exact ⟨fun h => ⟨h.1, h.2⟩, fun h => ⟨h.finding, h.fixes⟩⟩

theorem sound_iff (s : Store) (filter : Option Category) :
    s.Sound filter ↔ (s.selected filter).findSome? flawOf = none := by
  rw [findSome?_selected, List.findSome?_eq_none_iff]
  simp [Sound, ← flawAt_eq_none_iff]

theorem soundBelow_iff (s : Store) (filter : Option Category) (id : Int) :
    s.SoundBelow filter id ↔ ∀ row ∈ s.findings.rows, row.1 < id →
      (if Selects filter row.2 then s.flawAt row else none) = none := by
  simp [SoundBelow, ← flawAt_eq_none_iff]

theorem firstFlaw_iff (s : Store) (filter : Option Category) (e : StoreError) :
    s.FirstFlaw filter e ↔ (s.selected filter).findSome? flawOf = some e := by
  rw [findSome?_selected, findSome?_rows_eq_some_iff]
  simp only [← soundBelow_iff]
  constructor
  · intro h
    cases h with
    | @finding row flaw hrow hbefore hselected hflaw =>
      refine ⟨row, hrow, ?_, hbefore⟩
      rw [if_pos hselected, flawAt, hflaw]
      rfl
    | @fix row fix flaw hrow hbefore hselected hwell hfix hfinding hearlier hflaw =>
      refine ⟨row, hrow, ?_, hbefore⟩
      rw [if_pos hselected, flawAt, (row.2.flaw?_eq_none_iff).mpr hwell, Option.map_none,
        Option.none_or, findSome?_rows_eq_some_iff]
      refine ⟨fix, hfix, ?_, ?_⟩
      · rw [if_pos hfinding, hflaw]
        rfl
      · simpa [FixRow.flaw?_eq_none_iff] using hearlier
  · rintro ⟨row, hrow, hflaw, hbefore⟩
    obtain ⟨hselected, hflaw⟩ := Option.ite_none_right_eq_some.mp hflaw
    unfold flawAt at hflaw
    cases hcolumn : row.2.flaw? with
    | some flaw =>
      rw [hcolumn] at hflaw
      cases hflaw
      exact .finding hrow hbefore hselected hcolumn
    | none =>
      rw [hcolumn, Option.map_none, Option.none_or, findSome?_rows_eq_some_iff] at hflaw
      obtain ⟨fix, hfix, hflaw, hearlier⟩ := hflaw
      obtain ⟨hfinding, hflaw⟩ := Option.ite_none_right_eq_some.mp hflaw
      obtain ⟨flaw, hfixColumn, rfl⟩ := Option.map_eq_some_iff.mp hflaw
      exact .fix hrow hbefore hselected ((row.2.flaw?_eq_none_iff).mp hcolumn) hfix hfinding
        (by simpa [FixRow.flaw?_eq_none_iff] using hearlier) hfixColumn

/-! ## Queries -/

theorem checked_query (s : Store) (filter : Option Category) :
    Checked (List.Forall₂ Report.Item.Holds (s.selected filter))
      ((s.selected filter).findSome? flawOf) (s.query filter) :=
  checked_mapM checked_readRows _

theorem mapM_filter {ε α β : Type} {read : α → Except ε β} {p : α → Bool} {q : β → Bool}
    (hpq : ∀ x y, read x = .ok y → p x = q y) {xs : List α} {ys : List β}
    (h : xs.mapM read = .ok ys) : (xs.filter p).mapM read = .ok (ys.filter q) := by
  induction xs generalizing ys with
  | nil =>
    cases h
    rfl
  | cons x xs ih =>
    rw [List.mapM_cons] at h
    cases hx : read x with
    | error e =>
      rw [hx] at h
      cases h
    | ok y =>
      cases hxs : xs.mapM read with
      | error e =>
        rw [hx, hxs] at h
        cases h
      | ok ys' =>
        rw [hx, hxs] at h
        cases h
        rw [List.filter_cons, List.filter_cons, hpq x y hx]
        split
        · rw [List.mapM_cons, hx, ih hxs]
          rfl
        · exact ih hxs

/-- Each item is in the part of its category and in no other one. -/
theorem perm_categories (items : List Report.Item) :
    (Category.all.flatMap fun c => items.filter (·.finding.category = c)).Perm items := by
  classical
  rw [List.perm_iff_count]
  intro i
  have hcount : ∀ c, (items.filter (·.finding.category = c)).count i
      = if i.finding.category = c then items.count i else 0 := by
    intro c
    split
    · next hc => exact List.count_filter (by simpa using hc)
    · next hc => exact List.count_eq_zero.mpr (by simp [hc])
  simp only [List.count_flatMap, Function.comp_def, hcount]
  cases i.finding.category <;> simp [Category.all]

theorem name_eq_iff (a b : Category) : a.name = b.name ↔ a = b := by
  constructor
  · intro h
    have hparse := Category.ofName?_name a
    rw [h, Category.ofName?_name] at hparse
    exact (Option.some.inj hparse).symm
  · rintro rfl
    rfl

theorem query_category_of_query {s : Store} {items : List Report.Item} (h : s.query none = .ok items)
    (c : Category) : s.query (some c) = .ok (items.filter (·.finding.category = c)) := by
  have hselected : s.selected (some c)
      = (s.selected none).filter fun joined => joined.1.2.category = c.name := by
    simp only [selected, chooses, List.filter_true]
  rw [query, hselected]
  refine mapM_filter ?_ h
  intro joined i hread
  have hholds := checked_readRows joined
  rw [hread] at hholds
  rw [← hholds.of_ok.category]
  simp only [name_eq_iff]

def foreignFindings : List (Int × FindingRow) :=
  [(-2, ⟨1, "memory_leak", "", 3, "high", none, "lexical"⟩),
    (4, ⟨1, "Memory_Leak", "", -4, "high", none, "lexical"⟩),
    (9, ⟨6, "null_pointer", "", 2, "high", some 0.5, "classifier"⟩)]

def foreignFixes : List (Int × FixRow) :=
  [(1, ⟨-2, 3, "", "", "insert_after", ""⟩), (2, ⟨7, 1, "", "", "none", ""⟩),
    (5, ⟨-2, -1, "", "", "none", ""⟩)]

theorem ordered_foreignFindings : Table.Ordered foreignFindings 12 := by decide

theorem ordered_foreignFixes : Table.Ordered foreignFixes 5 := by decide

/-- A leak whose second fix is for a line below zero, a row of an unknown category, and a null pointer:
only the last one can be asked for. The numbers have gaps, and not all that are named are there. -/
def foreign : Store where
  findings := ⟨foreignFindings, 12, ordered_foreignFindings⟩
  fixes := ⟨foreignFixes, 5, ordered_foreignFixes⟩

end Store

end DefectScan
