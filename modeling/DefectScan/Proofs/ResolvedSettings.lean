import DefectScan.Config.Extract
import DefectScan.Proofs.Layers

/-!
# Settings one by one

There are twelve settings in three groups (`Setting.all`). Where the groups are tables, each setting is
read by itself,

    Settings.ofConfig v = .ok settings ↔ ∀ s ∈ Setting.all, s.resolve (v.get? s.path) = .ok (s.of settings)

as every group reads its members one by one (`SettingsGroup.ofConfig_eq_ok_iff`), and nothing that is
no setting matters (`Settings.ofConfig_congr`), nor is it ever reported (`Settings.path_of_error`).
That the settings are checked in the order of their names only says which of several faults is
reported.
-/

namespace DefectScan

/-! ## The settings one by one -/

/-- A setting: where it stands, how it is read from a layer and from the settings. -/
structure Setting where
  Value : Type
  group : String
  name : String
  as : ConfigValue → Except ConfigError Value
  of : Settings → Value

namespace Setting

open ConfigValue (asBool asCount asFloat asPath)

def all : List Setting :=
  [⟨Bool, "detection", "lexical", asBool, (·.detection.lexical)⟩,
    ⟨Bool, "detection", "structural", asBool, (·.detection.structural)⟩,
    ⟨Bool, "detection", "classifier", asBool, (·.detection.classifier)⟩,
    ⟨Bool, "detection", "parallel", asBool, (·.detection.parallel)⟩,
    ⟨Nat, "classifier", "max_features", asCount, (·.classifier.maxFeatures)⟩,
    ⟨Nat, "classifier", "epochs", asCount, (·.classifier.epochs)⟩,
    ⟨Float, "classifier", "learning_rate", asFloat, (·.classifier.learningRate)⟩,
    ⟨Float, "classifier", "l2_penalty", asFloat, (·.classifier.l2Penalty)⟩,
    ⟨Float, "classifier", "threshold", asFloat, (·.classifier.threshold)⟩,
    ⟨String, "classifier", "model_path", asPath, (·.classifier.modelPath)⟩,
    ⟨Bool, "storage", "enabled", asBool, (·.storage.enabled)⟩,
    ⟨String, "storage", "database_path", asPath, (·.storage.databasePath)⟩]

/-- The setting that is a member of a group. -/
def ofMember {G : Type} (group : String) (get : Settings → G) (m : GroupMember G) : Setting :=
  ⟨m.Value, group, m.name, m.as, fun settings => m.get (get settings)⟩

def ofGroup {G : Type} (group : String) (get : Settings → G) (s : SettingsGroup G) : List Setting :=
  s.members.map (ofMember group get)

theorem all_eq : all = ofGroup "detection" (·.detection) DetectionSettings.group
    ++ ofGroup "classifier" (·.classifier) ClassifierSettings.group
    ++ ofGroup "storage" (·.storage) StorageSettings.group := rfl

def path (s : Setting) : List String := [s.group, s.name]

/-- What a setting is where this is said of it; the default, if nothing is. -/
def resolve (s : Setting) (said : Option ConfigValue) : Except ConfigError s.Value :=
  said.elim (.ok (s.of {})) s.as

end Setting

/-! ## Tables of settings -/

namespace ConfigValue

section
variable {members : List (String × ConfigValue)} {α : Type} {names : List String} {name : String}
  {as : ConfigValue → Except ConfigError α} {other : α}

theorem read_table (members : List (String × ConfigValue)) (names : List String) (name : String)
    (as : ConfigValue → Except ConfigError α) (other : α) : (table members).read names name as other
      = (members.lookup name).elim (.ok other) fun x => (as x).mapError (·.within name) := by
  rw [read, setting?]
  cases members.lookup name <;> rfl

theorem mapError_eq_ok_iff {ε ε' : Type} {f : ε → ε'} {x : Except ε α} {a : α} :
    x.mapError f = .ok a ↔ x = .ok a := by
  cases x <;> simp [Except.mapError]

theorem read_table_eq_ok_iff {a : α} :
    (table members).read names name as other = .ok a ↔
      (members.lookup name).elim (.ok other) as = .ok a := by
  rw [read_table]
  cases members.lookup name with
  | none => exact Iff.rfl
  | some x => exact mapError_eq_ok_iff

theorem verdict_eq_ok_iff {x : Except ConfigError α} : verdict x = .ok () ↔ ∃ a, x = .ok a := by
  cases x <;> simp [verdict, Except.map]

theorem verdict_eq_error_iff {x : Except ConfigError α} {e : ConfigError} :
    verdict x = .error e ↔ x = .error e := by
  cases x <;> simp [verdict, Except.map]

end

theorem forM_eq_ok_iff {settings : List (String × Except ConfigError Unit)} :
    settings.forM (·.2) = .ok () ↔ ∀ s ∈ settings, s.2 = .ok () := by
  induction settings with
  | nil => simp [pure, Except.pure]
  | cons s settings ih =>
    rw [List.forM, List.forall_mem_cons, ← ih]
    cases s.2 <;> simp [bind, Except.bind]

theorem forM_eq_error {settings : List (String × Except ConfigError Unit)} {e : ConfigError}
    (h : settings.forM (·.2) = .error e) : ∃ s ∈ settings, s.2 = .error e := by
  induction settings with
  | nil => cases h
  | cons s settings ih =>
    rw [List.forM] at h
    cases hs : s.2 with
    | error e' =>
      rw [hs] at h
      cases h
      exact ⟨s, List.mem_cons_self, hs⟩
    | ok u =>
      rw [hs] at h
      obtain ⟨s', hs', he⟩ := ih h
      exact ⟨s', List.mem_cons_of_mem s hs', he⟩

theorem bind_eq_ok_iff {ε α β : Type} {x : Except ε α} {f : α → Except ε β} {b : β} :
    (x >>= f) = .ok b ↔ ∃ a, x = .ok a ∧ f a = .ok b := by
  cases x <;> simp [bind, Except.bind]

/-- What is wrong with a setting is wrong with a value that is given for it. -/
theorem exists_of_read_eq_error {members : List (String × ConfigValue)} {names : List String}
    {name : String} {α : Type} {as : ConfigValue → Except ConfigError α} {other : α} {e : ConfigError}
    (h : (table members).read names name as other = .error e) :
    ∃ x e', members.lookup name = some x ∧ as x = .error e' ∧ e.path = name :: e'.path := by
  rw [read_table] at h
  cases hx : members.lookup name with
  | none =>
    rw [hx] at h
    cases h
  | some x =>
    rw [hx, Option.elim_some] at h
    cases he : as x with
    | ok a =>
      rw [he] at h
      cases h
    | error e' =>
      rw [he] at h
      cases h
      exact ⟨x, e', rfl, he, rfl⟩

/-! ## Single values -/

/-- A reader of single values: it refuses tables, and names nothing inside of what it refuses. -/
structure Single {α : Type} (as : ConfigValue → Except ConfigError α) : Prop where
  path : ∀ v e, as v = .error e → e.path = []
  refuses : ∀ members, ∃ e, as (table members) = .error e

theorem single_asBool : Single asBool where
  path v e h := by
    cases v <;> cases h
    all_goals rfl
  refuses members := ⟨_, rfl⟩

theorem single_asCount : Single asCount where
  path v e h := by
    cases v with
    | int n =>
      rw [asCount] at h
      split at h <;> cases h
      rfl
    | _ =>
      cases h
      rfl
  refuses members := ⟨_, rfl⟩

theorem single_asFloat : Single asFloat where
  path v e h := by
    cases v <;> cases h
    all_goals rfl
  refuses members := ⟨_, rfl⟩

theorem single_asPath : Single asPath where
  path v e h := by
    cases v <;> cases h
    all_goals rfl
  refuses members := ⟨_, rfl⟩

theorem Single.path_of_read {members : List (String × ConfigValue)} {names : List String}
    {name : String} {α : Type} {as : ConfigValue → Except ConfigError α} (has : Single as) {other : α}
    {e : ConfigError} (h : (table members).read names name as other = .error e) : e.path = [name] := by
  obtain ⟨x, e', -, he', hpath⟩ := exists_of_read_eq_error h
  rw [hpath, has.path x e' he']

/-- Values that are alike are read alike. -/
theorem Single.elim_eq_ok_iff {α : Type} {as : ConfigValue → Except ConfigError α} (has : Single as)
    {x y : Option ConfigValue} (h : x.Rel Alike y) {other a : α} :
    x.elim (.ok other) as = .ok a ↔ y.elim (.ok other) as = .ok a := by
  cases h with
  | none => exact Iff.rfl
  | some halike =>
    rcases halike with rfl | ⟨⟨members, rfl⟩, members', rfl⟩
    · exact Iff.rfl
    · obtain ⟨e, he⟩ := has.refuses members
      obtain ⟨e', he'⟩ := has.refuses members'
      simp [he, he']

end ConfigValue

open ConfigValue

/-! ## Groups -/

section
variable {G : Type} {members : List (GroupMember G)}
  {read : (m : GroupMember G) → Except ConfigError m.Value}

/-- What is set later leaves alone what it does not concern. -/
theorem GroupMember.get_foldlM {α : Type} {get : G → α}
    (hframe : ∀ m ∈ members, ∀ g a, get (m.set g a) = get g) {start g : G}
    (h : members.foldlM (fun g m => (read m).map (m.set g)) start = .ok g) : get g = get start := by
  induction members generalizing start with
  | nil =>
    cases h
    rfl
  | cons m members ih =>
    obtain ⟨hm, hmembers⟩ := List.forall_mem_cons.mp hframe
    rw [List.foldlM_cons] at h
    obtain ⟨next, hnext, h⟩ := bind_eq_ok_iff.mp h
    rw [ih hmembers h]
    cases hread : read m with
    | error e =>
      rw [hread] at hnext
      cases hnext
    | ok a =>
      rw [hread] at hnext
      cases hnext
      exact hm start a

/-- Members that are read one after another have the values that were read. -/
theorem GroupMember.read_of_foldlM (hset : ∀ m ∈ members, ∀ g a, m.get (m.set g a) = a)
    (hframe : members.Pairwise fun m m' => ∀ g a, m.get (m'.set g a) = m.get g) {start g : G}
    (h : members.foldlM (fun g m => (read m).map (m.set g)) start = .ok g) :
    ∀ m ∈ members, read m = .ok (m.get g) := by
  induction members generalizing start with
  | nil => exact fun m hm => absurd hm List.not_mem_nil
  | cons m members ih =>
    obtain ⟨hm, hmembers⟩ := List.forall_mem_cons.mp hset
    obtain ⟨hlater, hframe⟩ := List.pairwise_cons.mp hframe
    rw [List.foldlM_cons] at h
    obtain ⟨next, hnext, h⟩ := bind_eq_ok_iff.mp h
    refine List.forall_mem_cons.mpr ⟨?_, ih hmembers hframe h⟩
    rw [get_foldlM hlater h]
    cases hread : read m with
    | error e =>
      rw [hread] at hnext
      cases hnext
    | ok a =>
      rw [hread] at hnext
      cases hnext
      rw [hm]

theorem GroupMember.foldlM_congr {read' : (m : GroupMember G) → Except ConfigError m.Value}
    (h : ∀ m ∈ members, read m = read' m) {start : G} :
    members.foldlM (fun g m => (read m).map (m.set g)) start
      = members.foldlM (fun g m => (read' m).map (m.set g)) start := by
  induction members generalizing start with
  | nil => rfl
  | cons m members ih =>
    obtain ⟨hm, hmembers⟩ := List.forall_mem_cons.mp h
    rw [List.foldlM_cons, List.foldlM_cons, hm]
    exact congrArg _ (funext fun g => ih hmembers)

theorem GroupMember.exists_foldlM (h : ∀ m ∈ members, ∃ a, read m = .ok a) (start : G) :
    ∃ g, members.foldlM (fun g m => (read m).map (m.set g)) start = .ok g := by
  induction members generalizing start with
  | nil => exact ⟨start, rfl⟩
  | cons m members ih =>
    obtain ⟨⟨a, ha⟩, hmembers⟩ := List.forall_mem_cons.mp h
    rw [List.foldlM_cons, ha]
    exact ih hmembers (m.set start a)

end

namespace SettingsGroup

variable {G : Type} {s : SettingsGroup G} {members members' : List (String × ConfigValue)}

theorem read_eq (s : SettingsGroup G) (members : List (String × ConfigValue)) (m : GroupMember G) :
    s.read (table members) m = (members.lookup m.name).elim (.ok (m.get s.other))
      fun x => (m.as x).mapError (·.within m.name) :=
  read_table members s.names m.name m.as (m.get s.other)

theorem check_eq_ok_iff : (table members).check s.expected
    (s.members.map fun m => (m.name, verdict (s.read (table members) m))) = .ok () ↔
      ∀ m ∈ s.members, ∃ a, s.read (table members) m = .ok a := by
  rw [check, forM_eq_ok_iff]
  simp only [(List.mergeSort_perm _ _).mem_iff, List.forall_mem_map, verdict_eq_ok_iff]

/-- Each member of a group is read by itself. -/
theorem ofConfig_eq_ok_iff {g : G} : s.ofConfig (table members) = .ok g ↔
    ∀ m ∈ s.members, s.read (table members) m = .ok (m.get g) := by
  have hread {g : G} (h : s.members.foldlM (fun g m => (s.read (table members) m).map (m.set g)) s.other
      = .ok g) : ∀ m ∈ s.members, s.read (table members) m = .ok (m.get g) :=
    GroupMember.read_of_foldlM s.complete.get_set s.complete.frame h
  rw [ofConfig, bind_eq_ok_iff]
  constructor
  · rintro ⟨-, -, h⟩
    exact hread h
  · intro h
    have hsome : ∀ m ∈ s.members, ∃ a, s.read (table members) m = .ok a := fun m hm => ⟨_, h m hm⟩
    obtain ⟨g', hg'⟩ := GroupMember.exists_foldlM hsome s.other
    obtain rfl : g' = g := s.complete.ext g' g fun m hm =>
      Except.ok.inj ((hread hg' m hm).symm.trans (h m hm))
    exact ⟨(), check_eq_ok_iff.mpr hsome, hg'⟩

theorem ofConfig_empty (s : SettingsGroup G) : s.ofConfig (table []) = .ok s.other :=
  ofConfig_eq_ok_iff.mpr fun m _ => read_eq s [] m

/-- A group fails by a member that fails. -/
theorem exists_of_ofConfig_eq_error {e : ConfigError} (h : s.ofConfig (table members) = .error e) :
    ∃ m ∈ s.members, s.read (table members) m = .error e := by
  rw [ofConfig] at h
  cases hcheck : (table members).check s.expected
    (s.members.map fun m => (m.name, verdict (s.read (table members) m))) with
  | ok u =>
    obtain ⟨g, hg⟩ := GroupMember.exists_foldlM (check_eq_ok_iff.mp hcheck) s.other
    rw [hcheck] at h
    cases hg.symm.trans h
  | error e' =>
    rw [hcheck] at h
    cases h
    obtain ⟨x, hx, he⟩ := forM_eq_error hcheck
    obtain ⟨m, hm, rfl⟩ := List.mem_map.mp ((List.mergeSort_perm _ _).mem_iff.mp hx)
    exact ⟨m, hm, verdict_eq_error_iff.mp he⟩

theorem ofConfig_congr (h : ∀ m ∈ s.members, s.read (table members) m = s.read (table members') m) :
    s.ofConfig (table members) = s.ofConfig (table members') := by
  have hverdicts : (s.members.map fun m => (m.name, verdict (s.read (table members) m)))
      = s.members.map fun m => (m.name, verdict (s.read (table members') m)) :=
    List.map_congr_left fun m hm => by rw [h m hm]
  rw [ofConfig, ofConfig, hverdicts, GroupMember.foldlM_congr h]
  rfl

end SettingsGroup

/-! ## All settings -/

/-- Where the settings stand. -/
def Setting.paths : List (List String) := all.map path

/-- Each group of which a layer says anything is a table in it. -/
def ConfigValue.GroupsAreTables (layer : ConfigValue) : Prop :=
  ∀ group ∈ Settings.names, layer.GroupIsTable group

section
variable {v w : ConfigValue}

/-- A group is read as the table of what is said of its settings. -/
theorem SettingsGroup.exists_read {G : Type} {group : String} (s : SettingsGroup G)
    (hv : ∃ members, v = table members) (hgroup : v.GroupIsTable group) :
    ∃ inner, v.read Settings.names group s.ofConfig s.other
        = (s.ofConfig (table inner)).mapError (·.within group) ∧
      ∀ name, inner.lookup name = v.get? [group, name] := by
  obtain ⟨members, rfl⟩ := hv
  simp only [read_table, get?_two]
  cases hlookup : members.lookup group with
  | none => exact ⟨[], by rw [s.ofConfig_empty]; rfl, fun name => rfl⟩
  | some x =>
    obtain ⟨inner, rfl⟩ := hgroup x (by rw [get?_one, hlookup])
    exact ⟨inner, rfl, fun name => (get?_one _ _).symm⟩

section
variable {G : Type} (s : SettingsGroup G) {group : String} (get : Settings → G)
  (hv : ∃ members, v = table members) (hgroup : v.GroupIsTable group)

include hv hgroup

theorem Setting.read_group_eq_ok_iff (hother : s.other = get {}) (settings : Settings) :
    v.read Settings.names group s.ofConfig s.other = .ok (get settings) ↔
      ∀ x ∈ ofGroup group get s, x.resolve (v.get? x.path) = .ok (x.of settings) := by
  obtain ⟨inner, hread, hlookup⟩ := s.exists_read hv hgroup
  rw [hread, mapError_eq_ok_iff, SettingsGroup.ofConfig_eq_ok_iff, ofGroup, List.forall_mem_map]
  refine forall₂_congr fun m _ => ?_
  rw [SettingsGroup.read, read_table_eq_ok_iff, hlookup, hother]
  rfl

theorem Setting.path_of_read_group (hsingle : ∀ x ∈ ofGroup group get s, Single x.as) {e : ConfigError}
    (h : v.read Settings.names group s.ofConfig s.other = .error e) :
    e.path ∈ (ofGroup group get s).map path := by
  obtain ⟨inner, hread, -⟩ := s.exists_read hv hgroup
  rw [hread] at h
  cases hofConfig : s.ofConfig (table inner) with
  | ok g =>
    rw [hofConfig] at h
    cases h
  | error e' =>
    rw [hofConfig] at h
    cases h
    obtain ⟨m, hm, he⟩ := SettingsGroup.exists_of_ofConfig_eq_error hofConfig
    have hx : ofMember group get m ∈ ofGroup group get s := List.mem_map_of_mem hm
    have hname : e'.path = [m.name] := (hsingle _ hx).path_of_read he
    exact List.mem_map.mpr ⟨_, hx, congrArg (group :: ·) hname.symm⟩

theorem Setting.read_group_congr (hw : ∃ members, w = table members) (hwgroup : w.GroupIsTable group)
    (h : ∀ x ∈ ofGroup group get s, v.get? x.path = w.get? x.path) :
    v.read Settings.names group s.ofConfig s.other
      = w.read Settings.names group s.ofConfig s.other := by
  obtain ⟨inner, hread, hlookup⟩ := s.exists_read hv hgroup
  obtain ⟨inner', hread', hlookup'⟩ := s.exists_read hw hwgroup
  rw [hread, hread', SettingsGroup.ofConfig_congr fun m hm => ?_]
  have hsame : v.get? [group, m.name] = w.get? [group, m.name] := List.forall_mem_map.mp h m hm
  rw [SettingsGroup.read_eq, SettingsGroup.read_eq, hlookup, hlookup', hsame]

end

theorem Setting.single : ∀ s ∈ all, Single s.as := by
  simp only [all, List.forall_mem_cons, List.not_mem_nil, false_implies, implies_true, and_true]
  exact ⟨single_asBool, single_asBool, single_asBool, single_asBool, single_asCount, single_asCount,
    single_asFloat, single_asFloat, single_asFloat, single_asPath, single_asBool, single_asPath⟩

/-- Each setting is read by itself. -/
theorem Settings.ofConfig_eq_ok_iff (hv : ∃ members, v = table members) (hgroups : v.GroupsAreTables)
    {settings : Settings} : ofConfig v = .ok settings ↔
      ∀ s ∈ Setting.all, s.resolve (v.get? s.path) = .ok (s.of settings) := by
  rw [Setting.all_eq, List.forall_mem_append, List.forall_mem_append, and_assoc,
    ← Setting.read_group_eq_ok_iff _ _ hv (hgroups "detection" (by decide)) rfl,
    ← Setting.read_group_eq_ok_iff _ _ hv (hgroups "classifier" (by decide)) rfl,
    ← Setting.read_group_eq_ok_iff _ _ hv (hgroups "storage" (by decide)) rfl]
  obtain ⟨members, rfl⟩ := hv
  rw [ofConfig, SettingsGroup.ofConfig_eq_ok_iff]
  simp only [group, Settings.members, List.forall_mem_cons, List.not_mem_nil, false_implies,
    implies_true, and_true]
  exact Iff.rfl

/-- What is reported wrong is a setting. -/
theorem Settings.path_of_error (hv : ∃ members, v = table members) (hgroups : v.GroupsAreTables)
    {e : ConfigError} (h : ofConfig v = .error e) : e.path ∈ Setting.paths := by
  have hsingle := Setting.single
  rw [Setting.all_eq, List.forall_mem_append, List.forall_mem_append] at hsingle
  obtain ⟨⟨hdetection, hclassifier⟩, hstorage⟩ := hsingle
  have hpath {G : Type} (s : SettingsGroup G) {group : String} {get : Settings → G}
      (hgroup : group ∈ names) (hsingle : ∀ x ∈ Setting.ofGroup group get s, Single x.as)
      (h : v.read names group s.ofConfig s.other = .error e) :=
    Setting.path_of_read_group s get hv (hgroups group hgroup) hsingle h
  rw [Setting.paths, Setting.all_eq, List.map_append, List.map_append, List.mem_append, List.mem_append]
  obtain ⟨members, rfl⟩ := hv
  obtain ⟨m, hm, he⟩ := SettingsGroup.exists_of_ofConfig_eq_error h
  simp only [group, Settings.members, List.mem_cons, List.not_mem_nil, or_false] at hm
  rcases hm with rfl | rfl | rfl
  · exact .inl (.inl (hpath DetectionSettings.group (by decide) hdetection he))
  · exact .inl (.inr (hpath ClassifierSettings.group (by decide) hclassifier he))
  · exact .inr (hpath StorageSettings.group (by decide) hstorage he)

/-- Nothing that is no setting matters. -/
theorem Settings.ofConfig_congr (hv : ∃ members, v = table members) (hgroups : v.GroupsAreTables)
    (hw : ∃ members, w = table members) (hwgroups : w.GroupsAreTables)
    (h : ∀ path ∈ Setting.paths, v.get? path = w.get? path) : ofConfig v = ofConfig w := by
  rw [Setting.paths, List.forall_mem_map, Setting.all_eq, List.forall_mem_append,
    List.forall_mem_append] at h
  obtain ⟨⟨hdetection, hclassifier⟩, hstorage⟩ := h
  have hread {G : Type} (s : SettingsGroup G) {group : String} {get : Settings → G}
      (hgroup : group ∈ names)
      (h : ∀ x ∈ Setting.ofGroup group get s, v.get? x.path = w.get? x.path) :=
    Setting.read_group_congr s get hv (hgroups group hgroup) hw (hwgroups group hgroup) h
  obtain ⟨members, rfl⟩ := hv
  obtain ⟨members', rfl⟩ := hw
  refine SettingsGroup.ofConfig_congr ?_
  simp only [group, Settings.members, List.forall_mem_cons, List.not_mem_nil, false_implies,
    implies_true, and_true]
  exact ⟨hread DetectionSettings.group (by decide) hdetection,
    hread ClassifierSettings.group (by decide) hclassifier,
    hread StorageSettings.group (by decide) hstorage⟩

end

/-- Values of the settings are settings. -/
theorem Setting.exists_settings {x : Setting → Option ConfigValue}
    (h : ∀ s ∈ all, ∃ a, s.resolve (x s) = .ok a) :
    ∃ settings, ∀ s ∈ all, s.resolve (x s) = .ok (s.of settings) := by
  simp only [all, List.forall_mem_cons, List.not_mem_nil, false_implies, implies_true, and_true] at h ⊢
  obtain ⟨⟨_, h₁⟩, ⟨_, h₂⟩, ⟨_, h₃⟩, ⟨_, h₄⟩, ⟨_, h₅⟩, ⟨_, h₆⟩, ⟨_, h₇⟩, ⟨_, h₈⟩, ⟨_, h₉⟩, ⟨_, h₁₀⟩,
    ⟨_, h₁₁⟩, ⟨_, h₁₂⟩⟩ := h
  exact ⟨⟨⟨_, _, _, _⟩, ⟨_, _, _, _, _, _⟩, ⟨_, _⟩⟩, h₁, h₂, h₃, h₄, h₅, h₆, h₇, h₈, h₉, h₁₀, h₁₁, h₁₂⟩

end DefectScan
