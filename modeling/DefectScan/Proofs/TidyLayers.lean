import DefectScan.Config.Environment
import DefectScan.Proofs.Layers
import DefectScan.Toml.Document

/-!
# Layers that are read

Whatever a document or the variables say, no name stands twice in a table of theirs: a document in
which it would is refused, and of two variables the later one takes the place of the earlier. So both
are layers (`Toml.isLayer_of_read`, `Environment.isLayer_layer`).
-/

namespace DefectScan

/-! ## Documents -/

namespace Toml

/-- What an item will say is tidy. Tables under one header will be a list. -/
inductive Item.Tidy : Item → Prop
  | value {v : ConfigValue} (h : v.Tidy) : Tidy (.value v)
  | table {entries : Entries} {origin : Origin} (hnodup : (entries.map Prod.fst).Nodup)
      (hinner : ∀ e ∈ entries, Tidy e.2) : Tidy (.table entries origin)
  | tables (before : List Entries) (last : Entries) : Tidy (.tables before last)

structure Entries.Tidy (es : Entries) : Prop where
  nodup : (es.map Prod.fst).Nodup
  inner : ∀ e ∈ es, e.2.Tidy

theorem closeEntries_eq_map (es : Entries) : closeEntries es = es.map fun e => (e.1, e.2.close) := by
  induction es with
  | nil => rw [closeEntries, List.map_nil]
  | cons e es ih => rw [closeEntries, List.map_cons, ih]

theorem tidy_closeEntries {es : Entries} (hnodup : (es.map Prod.fst).Nodup)
    (hinner : ∀ e ∈ es, e.2.close.Tidy) : (ConfigValue.table (closeEntries es)).Tidy := by
  rw [closeEntries_eq_map]
  refine .table (by rwa [List.map_map]) fun m hm => ?_
  obtain ⟨e, he, rfl⟩ := List.mem_map.mp hm
  exact hinner e he

theorem Item.Tidy.close {x : Item} (h : x.Tidy) : x.close.Tidy := by
  induction h with
  | value h => exact h
  | table hnodup _ ih => exact tidy_closeEntries hnodup ih
  | tables before last =>
    rw [Item.close]
    exact .list _

namespace Entries

theorem set_eq_put (key : String) (x : Item) (es : Entries) : es.set key x = put key x es := by
  induction es with
  | nil => rfl
  | cons e es ih => rw [set, put, ih]

theorem tidy_nil : Tidy [] := ⟨List.nodup_nil, by simp⟩

theorem Tidy.set {es : Entries} (h : es.Tidy) (key : String) {x : Item} (hx : x.Tidy) :
    (es.set key x).Tidy := by
  rw [set_eq_put]
  refine ⟨nodup_put h.nodup, fun e he => ?_⟩
  rcases mem_put he with rfl | he
  · exact hx
  · exact h.inner e he

theorem Tidy.table {es : Entries} (h : es.Tidy) (origin : Origin) : (Item.table es origin).Tidy :=
  .table h.nodup h.inner

/-- A change at the end of a path keeps entries tidy, if it keeps those tidy that it changes. -/
theorem Tidy.descend {byDots : Bool} {f : Origin → Entries → Option Entries}
    (hf : ∀ origin es es', Tidy es → f origin es = some es' → Tidy es') {path : List String}
    {origin : Origin} {es es' : Entries} (hes : es.Tidy)
    (h : descend byDots f path origin es = some es') : es'.Tidy := by
  induction path generalizing origin es es' with
  | nil => exact hf origin es es' hes h
  | cons key path ih =>
    rw [Entries.descend] at h
    split at h
    · simp only [Option.map_eq_some_iff] at h
      obtain ⟨inner, hinner, rfl⟩ := h
      exact hes.set key ((ih tidy_nil hinner).table _)
    · cases h
    · next inner origin' hlookup =>
      split at h
      · cases h
      · simp only [Option.map_eq_some_iff] at h
        obtain ⟨inner', hinner', rfl⟩ := h
        have hitem := hes.inner _ (mem_of_lookup hlookup)
        cases hitem with
        | table hnodup hinner => exact hes.set key ((ih ⟨hnodup, hinner⟩ hinner').table _)
    · simp only [Option.map_eq_some_iff] at h
      obtain ⟨inner, -, rfl⟩ := h
      exact hes.set key (.tables _ _)

theorem Tidy.addValue {path : List String} {key : String} {v : ConfigValue} {es es' : Entries}
    (hv : v.Tidy) (hes : es.Tidy) (h : es.addValue path key v = some es') : es'.Tidy := by
  refine hes.descend (fun origin es es' hes h => ?_) h
  split at h
  · cases h
  · cases h
    exact hes.set key (.value hv)

theorem Tidy.openTable {path : List String} {key : String} {es es' : Entries} (hes : es.Tidy)
    (h : es.openTable path key = some es') : es'.Tidy := by
  refine hes.descend (fun origin es es' hes h => ?_) h
  split at h
  · cases h
    exact hes.set key (tidy_nil.table _)
  · next inner hlookup =>
    cases h
    have hitem := hes.inner _ (mem_of_lookup hlookup)
    cases hitem with
    | table hnodup hinner => exact hes.set key (.table hnodup hinner)
  · cases h

theorem Tidy.openNext {path : List String} {key : String} {es es' : Entries} (hes : es.Tidy)
    (h : es.openNext path key = some es') : es'.Tidy := by
  refine hes.descend (fun origin es es' hes h => ?_) h
  split at h
  · cases h
    exact hes.set key (.tables _ _)
  · cases h
    exact hes.set key (.tables _ _)
  · cases h

theorem Tidy.addUnder {header path : List String} {key : String} {v : ConfigValue} {es es' : Entries}
    (hv : v.Tidy) (hes : es.Tidy) (h : es.addUnder header path key v = some es') : es'.Tidy :=
  hes.descend (fun _ _ _ hes h => hes.addValue hv h) h

end Entries

/-! ### Values -/

theorem tidy_of_inRange? {n : Int} {v : ConfigValue} (h : inRange? n = some v) : v.Tidy := by
  rw [inRange?] at h
  split at h
  · cases h
    exact .int n
  · cases h

theorem tidy_of_radix? {base : Nat} {word : List Char} {v : ConfigValue}
    (h : radix? base word = some v) : v.Tidy := by
  simp only [radix?, Option.bind_eq_bind, Option.bind_eq_some_iff] at h
  obtain ⟨ds, _, n, _, h⟩ := h
  exact tidy_of_inRange? h

theorem tidy_of_integer? {word : List Char} {v : ConfigValue} (h : integer? word = some v) :
    v.Tidy := by
  unfold integer? at h
  split at h
  · exact tidy_of_radix? h
  · exact tidy_of_radix? h
  · exact tidy_of_radix? h
  · simp only [Option.bind_eq_bind, Option.bind_eq_some_iff] at h
    obtain ⟨ds, _, h⟩ := h
    exact tidy_of_inRange? h

theorem tidy_of_real? {word : List Char} {v : ConfigValue} (h : real? word = some v) : v.Tidy := by
  simp only [real?] at h
  split at h
  · cases h
    exact .real _
  · split at h
    · cases h
    · simp only [Option.bind_eq_bind, Option.bind_eq_some_iff] at h
      obtain ⟨whole, _, ⟨places, rest⟩, _, exponent, _, h⟩ := h
      split at h
      · cases h
      · cases h
        exact .real _

theorem tidy_of_wordValue? {word : List Char} {v : ConfigValue} (h : wordValue? word = some v) :
    v.Tidy := by
  unfold wordValue? at h
  split at h
  · cases h
    exact .bool true
  · cases h
    exact .bool false
  · split at h
    · next heq =>
      cases h
      exact tidy_of_integer? heq
    · split at h
      · next heq =>
        cases h
        exact tidy_of_real? heq
      · split at h
        · cases h
          exact .table (by simp) (by simpa using ConfigValue.Tidy.str _)
        · cases h

/-- Every value of a document is tidy, and so is a table on one line. -/
theorem tidy_of_value? (fuel : Nat) :
    (∀ text v rest, value? fuel text = some (v, rest) → v.Tidy) ∧
      ∀ es text es' rest, Entries.Tidy es → pairs? fuel es text = some (es', rest) → es'.Tidy := by
  induction fuel with
  | zero =>
    refine ⟨fun text v rest h => ?_, fun es text es' rest _ h => ?_⟩
    · cases h
    · cases h
  | succ fuel ih =>
    refine ⟨fun text v rest h => ?_, fun es text es' rest hes h => ?_⟩
    · unfold value? at h
      split at h
      · simp only [Option.bind_eq_bind, Option.bind_eq_some_iff] at h
        obtain ⟨⟨items, rest'⟩, _, h⟩ := h
        cases h
        exact .list items
      · split at h
        · cases h
          exact .table List.nodup_nil (by simp)
        · simp only [Option.bind_eq_bind, Option.bind_eq_some_iff] at h
          -- the members of a table on one line are kept as those of the document are
          obtain ⟨⟨es, rest'⟩, hpairs, h⟩ := h
          cases h
          have hes := ih.2 _ _ _ _ Entries.tidy_nil hpairs
          exact tidy_closeEntries hes.nodup fun e he => (hes.inner e he).close
      · split at h
        · simp only [Option.map_eq_some_iff] at h
          obtain ⟨⟨s, rest'⟩, _, h⟩ := h
          cases h
          exact .str _
        · simp only [Option.map_eq_some_iff] at h
          obtain ⟨w, hw, h⟩ := h
          cases h
          exact tidy_of_wordValue? hw
      · cases h
    · simp only [pairs?, Option.bind_eq_bind, Option.bind_eq_some_iff] at h
      obtain ⟨⟨path, key, rest₁⟩, _, h⟩ := h
      split at h
      · simp only [Option.bind_eq_some_iff] at h
        obtain ⟨⟨v, rest₂⟩, hv, es₁, hadd, h⟩ := h
        have hes₁ : es₁.Tidy := hes.addValue (ih.1 _ _ _ hv) hadd
        split at h
        · exact ih.2 _ _ _ _ hes₁ h
        · cases h
          exact hes₁
        · cases h
      · cases h

/-! ### Lines -/

theorem tidy_of_lines? {fuel : Nat} {header : List String} {es es' : Entries} {text : List Char}
    (hes : es.Tidy) (h : lines? fuel header es text = some es') : es'.Tidy := by
  induction fuel generalizing header es text with
  | zero => cases h
  | succ fuel ih =>
    simp only [lines?, Option.bind_eq_bind, Option.bind_eq_some_iff] at h
    obtain ⟨rest, _, h⟩ := h
    split at h
    · cases h
      exact hes
    · simp only [Option.bind_eq_some_iff] at h
      obtain ⟨⟨path, key, rest₁⟩, _, h⟩ := h
      split at h
      · simp only [Option.bind_eq_some_iff] at h
        obtain ⟨es₁, hopen, rest₂, _, h⟩ := h
        exact ih (hes.openNext hopen) h
      · cases h
    · simp only [Option.bind_eq_some_iff] at h
      obtain ⟨⟨path, key, rest₁⟩, _, h⟩ := h
      split at h
      · simp only [Option.bind_eq_some_iff] at h
        obtain ⟨es₁, hopen, rest₂, _, h⟩ := h
        exact ih (hes.openTable hopen) h
      · cases h
    · simp only [Option.bind_eq_some_iff] at h
      obtain ⟨⟨path, key, rest₁⟩, _, h⟩ := h
      split at h
      · simp only [Option.bind_eq_some_iff] at h
        obtain ⟨⟨v, rest₂⟩, hv, es₁, hadd, rest₃, _, h⟩ := h
        exact ih (hes.addUnder ((tidy_of_value? _).1 _ _ _ hv) hadd) h
      · cases h

theorem isLayer_of_read {text : List Char} {v : ConfigValue} (h : read text = some v) : v.IsLayer := by
  simp only [read, Option.map_eq_some_iff] at h
  obtain ⟨es, hlines, rfl⟩ := h
  have hes : Entries.Tidy es := tidy_of_lines? Entries.tidy_nil hlines
  exact ⟨tidy_closeEntries hes.nodup fun e he => (hes.inner e he).close, _, rfl⟩

end Toml

/-! ## Variables -/

namespace Environment

open ConfigValue (nest)

theorem tidy_word (text : List Char) : (word text).Tidy := by
  unfold word
  split
  · exact .real _
  · split
    · exact .int _
    · exact .str _

theorem tidy_of_value? (fuel : Nat) :
    (∀ text v rest, value? fuel text = some (v, rest) → v.Tidy) ∧
      ∀ text ms rest, members? fuel text = some (ms, rest) → (ConfigValue.table ms).Tidy := by
  induction fuel with
  | zero =>
    refine ⟨fun text v rest h => ?_, fun text ms rest h => ?_⟩
    · cases h
    · cases h
  | succ fuel ih =>
    refine ⟨fun text v rest h => ?_, fun text ms rest h => ?_⟩
    · simp only [value?] at h
      split at h
      · cases h
        exact .bool true
      · cases h
        exact .bool false
      · split at h
        · simp only [Option.bind_eq_bind, Option.bind_eq_some_iff, Option.map_eq_some_iff] at h
          obtain ⟨_, ⟨ms, hms, rfl⟩, h⟩ := h
          cases h
          exact ih.2 _ _ _ hms
        · simp only [Option.bind_eq_bind, Option.bind_eq_some_iff, Option.map_eq_some_iff] at h
          obtain ⟨_, ⟨vs, _, rfl⟩, h⟩ := h
          cases h
          exact .list vs.1
        · simp only [Option.bind_eq_bind, Option.bind_eq_some_iff, Option.map_eq_some_iff] at h
          obtain ⟨_, ⟨s, _, rfl⟩, h⟩ := h
          cases h
          exact .str _
        · cases h
          exact tidy_word _
    · unfold members? at h
      split at h
      · cases h
        exact .table List.nodup_nil (by simp)
      · simp only [Option.bind_eq_bind, Option.bind_eq_some_iff] at h
        obtain ⟨⟨key, rest₁⟩, _, h⟩ := h
        split at h
        · simp only [Option.bind_eq_some_iff] at h
          obtain ⟨⟨v, rest₂⟩, hv, h⟩ := h
          have hv := ih.1 _ _ _ hv
          split at h
          · simp only [Option.bind_eq_some_iff] at h
            obtain ⟨⟨ms', rest₃⟩, hms, h⟩ := h
            have hms := ih.2 _ _ _ hms
            cases h
            split
            · exact hms
            -- of two members with one name the later stands, so the first joins only new names
            · next hnone =>
              cases hms with
              | table hnodup hinner =>
                refine .table (List.nodup_cons.mpr ⟨fun hmem => hnone ?_, hnodup⟩)
                  (List.forall_mem_cons.mpr ⟨hv, hinner⟩)
                obtain ⟨m, hm, hkey⟩ := List.mem_map.mp hmem
                exact List.any_eq_true.mpr ⟨m, hm, decide_eq_true hkey⟩
          · cases h
            exact .table (by simp) (by simpa using hv)
          · cases h
        · cases h

theorem tidy_valueOf (text : String) : (valueOf text).Tidy := by
  simp only [valueOf]
  split
  · next v hv => exact (tidy_of_value? _).1 _ _ _ hv
  · exact .str text

theorem tidy_nest {v : ConfigValue} (hv : v.Tidy) (path : List String) : (nest v path).Tidy := by
  induction path with
  | nil => exact hv
  | cons name path ih => exact .table (by simp) (by simpa using ih)

theorem splitName_ne_nil (cs : List Char) : splitName cs ≠ [] := by
  fun_cases splitName cs <;> simp_all

/-- A variable sets something in a table, never the whole. -/
theorem ne_nil_of_pathOf? {name : String} {path : List String} (h : pathOf? name = some path) :
    path ≠ [] := by
  simp only [pathOf?] at h
  split at h
  · split at h
    · cases h
    · cases h
      simpa using splitName_ne_nil _
  · cases h

/-- What the variables say, each by itself. -/
def variableLayers (assignments : List (String × String)) : List ConfigValue :=
  assignments.filterMap fun a => (pathOf? a.1).map (nest (valueOf a.2))

/-- Each variable is a layer over the ones before. -/
theorem layer_eq_stack (assignments : List (String × String)) :
    layer assignments = .stack (variableLayers assignments) := by
  rw [layer, ConfigValue.stack]
  generalize ConfigValue.table [] = low
  induction assignments generalizing low with
  | nil => rfl
  | cons a assignments ih =>
    obtain ⟨name, text⟩ := a
    rw [List.foldl_cons, ih]
    simp only [variableLayers, List.filterMap_cons]
    cases pathOf? name <;> rfl

theorem isLayer_of_mem_variableLayers {assignments : List (String × String)} {v : ConfigValue}
    (h : v ∈ variableLayers assignments) : v.IsLayer := by
  obtain ⟨a, -, hv⟩ := List.mem_filterMap.mp h
  obtain ⟨path, hpath, rfl⟩ := Option.map_eq_some_iff.mp hv
  refine ⟨tidy_nest (tidy_valueOf a.2) path, ?_⟩
  cases path with
  | nil => exact absurd rfl (ne_nil_of_pathOf? hpath)
  | cons name path => exact ⟨_, rfl⟩

theorem isLayer_layer (assignments : List (String × String)) : (layer assignments).IsLayer := by
  rw [layer_eq_stack]
  exact .stack fun v hv => isLayer_of_mem_variableLayers hv

end Environment

end DefectScan
