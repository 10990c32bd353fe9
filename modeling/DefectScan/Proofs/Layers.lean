import DefectScan.Config.Value
import Mathlib.Data.List.Induction

/-!
# Layers over one another

Where a layer is put over another, its tables are joined with those below member by member, and
anything else takes the place of what was there. So each setting is resolved by itself,

    (stack layers).get? [group, name] = joined (layers.filterMap (·.get? [group, name]))

provided that the groups are tables and no name stands twice in a table (`Tidy`), and of the values
that layers give it the last decides (`rel_joined`). A table is never the value of a setting; of two
tables in the place of a setting it only counts that they are tables (`Alike`).
-/

namespace DefectScan

/-! ## Lists of named values -/

/-- Sets the value of a name in its place, or behind the others. -/
def put {α : Type} (key : String) (x : α) : List (String × α) → List (String × α)
  | [] => [(key, x)]
  | (k, y) :: rest => if k = key then (k, x) :: rest else (k, y) :: put key x rest

section
variable {α : Type} {key other : String} {x : α} {l : List (String × α)}

theorem lookup_put_self : (put key x l).lookup key = some x := by
  induction l with
  | nil => simp [put]
  | cons m rest ih =>
    obtain ⟨k, y⟩ := m
    rw [put]
    split
    · next hk =>
      subst hk
      exact List.lookup_cons_self
    · next hk => rw [List.lookup_cons, beq_false_of_ne (Ne.symm hk), ih]

theorem lookup_put_of_ne (h : other ≠ key) : (put key x l).lookup other = l.lookup other := by
  induction l with
  | nil => simp [put, List.lookup_cons, beq_false_of_ne h]
  | cons m rest ih =>
    obtain ⟨k, y⟩ := m
    rw [put, List.lookup_cons]
    split
    · next hk =>
      subst hk
      rw [List.lookup_cons, beq_false_of_ne h]
    · rw [List.lookup_cons, ih]

theorem mem_put {m : String × α} (h : m ∈ put key x l) : m = (key, x) ∨ m ∈ l := by
  induction l with
  | nil => exact .inl (List.mem_singleton.mp h)
  | cons n rest ih =>
    obtain ⟨k, y⟩ := n
    rw [put] at h
    split at h
    · next hk =>
      subst hk
      exact (List.mem_cons.mp h).imp_right (List.mem_cons_of_mem _)
    · rcases List.mem_cons.mp h with rfl | h
      · exact .inr List.mem_cons_self
      · exact (ih h).imp_right (List.mem_cons_of_mem _)

theorem nodup_put (h : (l.map Prod.fst).Nodup) : ((put key x l).map Prod.fst).Nodup := by
  induction l with
  | nil => simp [put]
  | cons n rest ih =>
    obtain ⟨k, y⟩ := n
    rw [List.map_cons, List.nodup_cons] at h
    rw [put]
    split
    · rwa [List.map_cons, List.nodup_cons]
    · next hk =>
      rw [List.map_cons, List.nodup_cons]
      refine ⟨fun hmem => ?_, ih h.2⟩
      obtain ⟨m, hm, hname⟩ := List.mem_map.mp hmem
      rcases mem_put hm with rfl | hm
      · exact hk hname.symm
      · exact h.1 (hname ▸ List.mem_map_of_mem hm)

theorem lookup_eq_none_of_nodup (h : (((key, x) :: l).map Prod.fst).Nodup) : l.lookup key = none := by
  rw [List.map_cons, List.nodup_cons] at h
  rw [List.lookup_eq_none_iff]
  exact fun m hm => bne_iff_ne.mpr fun heq => h.1 (List.mem_map.mpr ⟨m, hm, heq.symm⟩)

theorem mem_of_lookup (h : l.lookup key = some x) : (key, x) ∈ l := by
  obtain ⟨l₁, l₂, rfl, -⟩ := List.lookup_eq_some_iff.mp h
  simp

end

namespace ConfigValue

theorem setMember_eq_put (key : String) (x : ConfigValue) (members : List (String × ConfigValue)) :
    setMember key x members = put key x members := by
  induction members with
  | nil => rfl
  | cons m rest ih => rw [setMember, put, ih]

/-! ## Tables without repeated names -/

/-- In a table, and in the tables in it, each name stands once. A list is replaced as it is, so what is
in it does not matter. -/
inductive Tidy : ConfigValue → Prop
  | bool (b : Bool) : Tidy (bool b)
  | int (n : Int) : Tidy (int n)
  | real (x : Float) : Tidy (real x)
  | str (s : String) : Tidy (str s)
  | list (items : List ConfigValue) : Tidy (list items)
  | table {members : List (String × ConfigValue)} (hnodup : (members.map Prod.fst).Nodup)
      (hinner : ∀ m ∈ members, Tidy m.2) : Tidy (table members)

theorem overlayMembers_cons (low : List (String × ConfigValue)) (key : String) (x : ConfigValue)
    (rest : List (String × ConfigValue)) : overlayMembers low ((key, x) :: rest)
      = overlayMembers (put key ((low.lookup key).elim x (overlay · x)) low) rest := by
  rw [overlayMembers, setMember_eq_put]
  cases low.lookup key <;> rfl

/-- What the table above does not name stays as it was below. -/
theorem lookup_overlayMembers_of_none {low high : List (String × ConfigValue)} {key : String}
    (h : high.lookup key = none) : (overlayMembers low high).lookup key = low.lookup key := by
  induction high generalizing low with
  | nil => rw [overlayMembers]
  | cons m rest ih =>
    obtain ⟨k, x⟩ := m
    rw [List.lookup_cons] at h
    split at h
    · cases h
    · next hk =>
      rw [overlayMembers_cons, ih h, lookup_put_of_ne (ne_of_beq_false hk)]

/-- What the table above names is put over what was there below. -/
theorem lookup_overlayMembers_of_some {low high : List (String × ConfigValue)} {key : String}
    {x : ConfigValue} (hnodup : (high.map Prod.fst).Nodup) (h : high.lookup key = some x) :
    (overlayMembers low high).lookup key = some ((low.lookup key).elim x (overlay · x)) := by
  induction high generalizing low with
  | nil => cases h
  | cons m rest ih =>
    obtain ⟨k, y⟩ := m
    rw [overlayMembers_cons]
    by_cases hk : key = k
    · subst hk
      rw [List.lookup_cons_self] at h
      cases h
      rw [lookup_overlayMembers_of_none (lookup_eq_none_of_nodup hnodup), lookup_put_self]
    · rw [List.lookup_cons, beq_false_of_ne hk] at h
      rw [ih (List.nodup_cons.mp hnodup).2 h, lookup_put_of_ne hk]

theorem tidy_overlayMembers {low high : List (String × ConfigValue)} (hlow : Tidy (table low))
    (hhigh : ∀ m ∈ high, m.2.Tidy ∧ ∀ v : ConfigValue, v.Tidy → (v.overlay m.2).Tidy) :
    Tidy (table (overlayMembers low high)) := by
  induction high generalizing low with
  | nil => rwa [overlayMembers]
  | cons m rest ih =>
    obtain ⟨k, x⟩ := m
    obtain ⟨hx, hrest⟩ := List.forall_mem_cons.mp hhigh
    obtain ⟨hnodup, hinner⟩ : (low.map Prod.fst).Nodup ∧ ∀ m ∈ low, m.2.Tidy := by
      cases hlow with
      | table hnodup hinner => exact ⟨hnodup, hinner⟩
    have hjoined : ((low.lookup k).elim x (overlay · x)).Tidy := by
      cases hlookup : low.lookup k with
      | none => exact hx.1
      | some y => exact hx.2 y (hinner _ (mem_of_lookup hlookup))
    rw [overlayMembers_cons]
    refine ih (.table (nodup_put hnodup) fun m hm => ?_) hrest
    rcases mem_put hm with rfl | hm
    · exact hjoined
    · exact hinner m hm

theorem Tidy.overlay {low high : ConfigValue} (hhigh : high.Tidy) (hlow : low.Tidy) :
    (low.overlay high).Tidy := by
  induction hhigh generalizing low with
  | bool b => exact .bool b
  | int n => exact .int n
  | real x => exact .real x
  | str s => exact .str s
  | list items => exact .list items
  | @table members hnodup hinner ih =>
    cases low with
    | table below => exact tidy_overlayMembers hlow fun m hm => ⟨hinner m hm, fun v hv => ih m hm hv⟩
    | _ => exact .table hnodup hinner

/-! ## What stands in the place of a setting -/

/-- The same, or two tables. -/
def Alike (v w : ConfigValue) : Prop :=
  v = w ∨ (∃ members, v = table members) ∧ ∃ members, w = table members

theorem alike_overlay (low high : ConfigValue) : Alike (low.overlay high) high := by
  cases high with
  | table members =>
    refine .inr ⟨?_, members, rfl⟩
    cases low with
    | table below => exact ⟨_, rfl⟩
    | _ => exact ⟨members, rfl⟩
  | _ => exact .inl rfl

/-- What a layer says of a group is a table, if it says anything. -/
def GroupIsTable (group : String) (layer : ConfigValue) : Prop :=
  ∀ v, layer.get? [group] = some v → ∃ members, v = table members

def isTable : ConfigValue → Bool
  | table _ => true
  | _ => false

theorem isTable_iff {v : ConfigValue} : v.isTable = true ↔ ∃ members, v = table members := by
  cases v <;> simp [isTable]

instance (group : String) (layer : ConfigValue) : Decidable (GroupIsTable group layer) :=
  decidable_of_iff ((layer.get? [group]).all isTable = true)
    ((Option.all_eq_true _ _).trans (forall₂_congr fun _ _ => isTable_iff))

theorem get?_one (members : List (String × ConfigValue)) (name : String) :
    (table members).get? [name] = members.lookup name := by
  rw [get?]
  cases members.lookup name <;> simp [get?]

theorem get?_two (members : List (String × ConfigValue)) (group name : String) :
    (table members).get? [group, name] = (members.lookup group).bind (·.get? [name]) := by
  rw [get?]
  cases members.lookup group <;> rfl

/-- A layer as it comes from a file or the environment. -/
structure IsLayer (layer : ConfigValue) : Prop where
  tidy : layer.Tidy
  isTable : ∃ members, layer = table members

theorem IsLayer.overlay {low high : ConfigValue} (hlow : low.IsLayer) (hhigh : high.IsLayer) :
    (low.overlay high).IsLayer := by
  obtain ⟨below, rfl⟩ := hlow.isTable
  obtain ⟨above, rfl⟩ := hhigh.isTable
  exact ⟨hhigh.tidy.overlay hlow.tidy, _, rfl⟩

theorem isLayer_empty : (table []).IsLayer := ⟨.table List.nodup_nil (by simp), [], rfl⟩

theorem IsLayer.stack {layers : List ConfigValue} (h : ∀ layer ∈ layers, layer.IsLayer) :
    (stack layers).IsLayer := by
  suffices hfold : ∀ low : ConfigValue, low.IsLayer → (layers.foldl ConfigValue.overlay low).IsLayer from
    hfold _ isLayer_empty
  induction layers with
  | nil => exact fun low hlow => hlow
  | cons layer layers ih =>
    obtain ⟨hlayer, hlayers⟩ := List.forall_mem_cons.mp h
    exact fun low hlow => ih hlayers _ (hlow.overlay hlayer)

section
variable {group name : String} {low high : ConfigValue}

/-- What a layer says of a group: its members, where it says anything. -/
theorem exists_members (hlayer : high.IsLayer) (hgroup : high.GroupIsTable group) :
    (∃ above, high = table above ∧ above.lookup group = none) ∨
      ∃ above members, high = table above ∧ above.lookup group = some (table members) ∧
        (above.map Prod.fst).Nodup ∧ (members.map Prod.fst).Nodup := by
  obtain ⟨above, rfl⟩ := hlayer.isTable
  cases hlookup : above.lookup group with
  | none => exact .inl ⟨above, rfl, hlookup⟩
  | some v =>
    obtain ⟨members, rfl⟩ := hgroup v (by rw [get?_one, hlookup])
    refine .inr ⟨above, members, rfl, hlookup, ?_⟩
    cases hlayer.tidy with
    | table hnodup hinner =>
      cases hinner _ (mem_of_lookup hlookup) with
      | table hnodup' => exact ⟨hnodup, hnodup'⟩

/-- A setting that the layer above gives is put over what there was below; a group below that is no
table counts for nothing. -/
theorem get?_overlay_of_some (hlow : low.IsLayer) (hhigh : high.IsLayer)
    (hgroup : high.GroupIsTable group) {x : ConfigValue} (h : high.get? [group, name] = some x) :
    ∃ there : Option ConfigValue,
      (low.overlay high).get? [group, name] = some (there.elim x (ConfigValue.overlay · x)) ∧
        (low.GroupIsTable group → there = low.get? [group, name]) := by
  obtain ⟨below, rfl⟩ := hlow.isTable
  rcases exists_members hhigh hgroup with ⟨above, rfl, hnone⟩ | ⟨above, members, rfl, hsome, hnodup, hinner⟩
  · rw [get?_two, hnone] at h
    cases h
  · rw [get?_two, hsome, Option.bind_some, get?_one] at h
    rw [ConfigValue.overlay, get?_two, get?_two, lookup_overlayMembers_of_some hnodup hsome,
      Option.bind_some]
    cases hbelow : below.lookup group with
    | none => exact ⟨none, (get?_one _ _).trans h, fun _ => rfl⟩
    | some y =>
      have hgroup (hlow : (table below).GroupIsTable group) : ∃ inner, y = table inner :=
        hlow y (by rw [get?_one, hbelow])
      cases y with
      | table inner =>
        exact ⟨inner.lookup name, (get?_one _ _).trans (lookup_overlayMembers_of_some hinner h),
          fun _ => (get?_one _ _).symm⟩
      | _ =>
        refine ⟨none, (get?_one _ _).trans h, fun hlow => ?_⟩
        obtain ⟨inner, hinner⟩ := hgroup hlow
        cases hinner

/-- A setting that the layer above leaves open is as below. -/
theorem get?_overlay_of_none (hlow : low.IsLayer) (hhigh : high.IsLayer)
    (hbelow : low.GroupIsTable group) (hgroup : high.GroupIsTable group)
    (h : high.get? [group, name] = none) :
    (low.overlay high).get? [group, name] = low.get? [group, name] := by
  rcases exists_members hhigh hgroup with ⟨above, rfl, hnone⟩ | ⟨above, members, rfl, hsome, hnodup, -⟩
  · obtain ⟨below, rfl⟩ := hlow.isTable
    rw [ConfigValue.overlay, get?_two, get?_two, lookup_overlayMembers_of_none hnone]
  · rw [get?_two, hsome, Option.bind_some, get?_one] at h
    rcases exists_members hlow hbelow with ⟨below, rfl, hnone⟩ | ⟨below, inner, rfl, hinner, -⟩
    · rw [ConfigValue.overlay, get?_two, get?_two, lookup_overlayMembers_of_some hnodup hsome, hnone]
      exact (get?_one _ _).trans h
    · rw [ConfigValue.overlay, get?_two, get?_two, lookup_overlayMembers_of_some hnodup hsome, hinner]
      exact (get?_one _ _).trans ((lookup_overlayMembers_of_none h).trans (get?_one _ _).symm)

/-- A group that the layer above gives is a table, whatever it was below. -/
theorem GroupIsTable.overlay (hlow : low.IsLayer) (hhigh : high.IsLayer)
    (hbelow : high.get? [group] = none → low.GroupIsTable group) (hgroup : high.GroupIsTable group) :
    (low.overlay high).GroupIsTable group := by
  intro v hv
  obtain ⟨below, rfl⟩ := hlow.isTable
  rcases exists_members hhigh hgroup with ⟨above, rfl, hnone⟩ | ⟨above, members, rfl, hsome, hnodup, -⟩
  · rw [ConfigValue.overlay, get?_one, lookup_overlayMembers_of_none hnone] at hv
    exact hbelow ((get?_one _ _).trans hnone) v (by rw [get?_one, hv])
  · rw [ConfigValue.overlay, get?_one, lookup_overlayMembers_of_some hnodup hsome] at hv
    cases hv
    cases below.lookup group with
    | none => exact ⟨members, rfl⟩
    | some y =>
      cases y with
      | table inner => exact ⟨_, rfl⟩
      | _ => exact ⟨members, rfl⟩

end

/-! ## All layers -/

/-- Values of one setting over one another. -/
def joined (values : List ConfigValue) : Option ConfigValue :=
  values.foldl (fun low v => some (low.elim v (overlay · v))) none

theorem joined_concat (values : List ConfigValue) (v : ConfigValue) :
    joined (values ++ [v]) = some ((joined values).elim v (overlay · v)) := by
  rw [joined, List.foldl_append, joined]
  rfl

/-- Of the values only the last counts. -/
theorem rel_joined (values : List ConfigValue) : (joined values).Rel Alike values.getLast? := by
  induction values using List.reverseRecOn with
  | nil => exact .none
  | append_singleton values v =>
    rw [joined_concat, List.getLast?_concat]
    cases joined values with
    | none => exact .some (.inl rfl)
    | some w => exact .some (alike_overlay w v)

theorem stack_concat (layers : List ConfigValue) (layer : ConfigValue) :
    stack (layers ++ [layer]) = (stack layers).overlay layer := by
  rw [stack, List.foldl_append, stack]
  rfl

theorem GroupIsTable.stack {group : String} {layers : List ConfigValue}
    (hlayers : ∀ layer ∈ layers, layer.IsLayer) (h : ∀ layer ∈ layers, layer.GroupIsTable group) :
    (stack layers).GroupIsTable group := by
  induction layers using List.reverseRecOn with
  | nil => exact fun v hv => by cases hv
  | append_singleton layers layer ih =>
    rw [List.forall_mem_append, List.forall_mem_singleton] at hlayers h
    rw [stack_concat]
    exact .overlay (.stack hlayers.1) hlayers.2 (fun _ => ih hlayers.1 h.1) h.2

/-- Each setting is resolved by itself, from what the layers say of it. -/
theorem get?_stack {group name : String} {layers : List ConfigValue}
    (hlayers : ∀ layer ∈ layers, layer.IsLayer) (h : ∀ layer ∈ layers, layer.GroupIsTable group) :
    (stack layers).get? [group, name] = joined (layers.filterMap (·.get? [group, name])) := by
  induction layers using List.reverseRecOn with
  | nil => rfl
  | append_singleton layers layer ih =>
    rw [List.forall_mem_append, List.forall_mem_singleton] at hlayers h
    rw [stack_concat, List.filterMap_append, List.filterMap_cons, List.filterMap_nil]
    cases hget : layer.get? [group, name] with
    | none =>
      rw [get?_overlay_of_none (.stack hlayers.1) hlayers.2 (.stack hlayers.1 h.1) h.2 hget,
        ih hlayers.1 h.1, List.append_nil]
    | some x =>
      obtain ⟨there, hthere, heq⟩ := get?_overlay_of_some (.stack hlayers.1) hlayers.2 h.2 hget
      rw [hthere, joined_concat, heq (.stack hlayers.1 h.1), ih hlayers.1 h.1]

end ConfigValue

end DefectScan
