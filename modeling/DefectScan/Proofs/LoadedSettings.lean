import DefectScan.Config.Load
import DefectScan.Proofs.DirectoryFiles
import DefectScan.Proofs.ResolvedSettings
import DefectScan.Proofs.TidyLayers
import Mathlib.Data.List.Find

/-!
# Settings from files and the environment

What the file of the user, the file of the workspace and the environment say are layers over one
another. Loading changes no file, and what it returns is, setting by setting, what the uppermost layer
says that says anything of it, and the default if none does (`Config.run_load_uppermost`). It fails
only by a file that is no TOML or by a value of the wrong type that no layer above replaces.
-/

namespace DefectScan

theorem TreeM.run_bind_of_eq {α β : Type} {x : TreeM α} {f : α → TreeM β} {root root' : Entry} {a : α}
    (h : x.run root = (a, root')) : (x >>= f).run root = (f a).run root' := by
  rw [StateT.run_bind, h]
  rfl

namespace Config

open ConfigValue

/-! ## What a file says -/

/-- The text of the file at a path. -/
def textAt (root : Entry) (path : String) : Except FileError String :=
  (root.read path).bind fun content => (String.fromUTF8? content).elim (.error .notText) .ok

/-- What the file at a path says, if there is one and it is TOML. -/
def said? (root : Entry) (path : String) : Option ConfigValue :=
  (textAt root path).toOption.bind (Toml.read ·.toList)

/-- There is a file at a path, and it is no TOML. -/
def NotToml (root : Entry) (path : String) : Prop :=
  root.kind? path = some .file ∧ said? root path = none

instance (root : Entry) (path : String) : Decidable (NotToml root path) :=
  inferInstanceAs (Decidable (_ ∧ _))

/-- The files of settings, the lowest first. -/
def files (home : String) (workspace : Option String) : List String :=
  userFile home :: workspace.toList.map workspaceFile

def layersAt (root : Entry) (home : String) (workspace : Option String)
    (assignments : List (String × String)) : List ConfigValue :=
  (files home workspace).filterMap (said? root) ++ [Environment.layer assignments]

section
variable {root : Entry} {path : String}

theorem isLayer_of_said? {v : ConfigValue} (h : said? root path = some v) : v.IsLayer := by
  obtain ⟨text, -, h⟩ := Option.bind_eq_some_iff.mp h
  exact Toml.isLayer_of_read h

theorem isLayer_of_mem_layersAt {home : String} {workspace : Option String}
    {assignments : List (String × String)} :
    ∀ layer ∈ layersAt root home workspace assignments, layer.IsLayer := by
  intro layer h
  rcases List.mem_append.mp h with h | h
  · obtain ⟨path, -, hsaid⟩ := List.mem_filterMap.mp h
    exact isLayer_of_said? hsaid
  · rw [List.mem_singleton.mp h]
    exact Environment.isLayer_layer assignments

theorem read_eq_ok_iff {content : ByteArray} :
    root.read path = .ok content ↔ root.at? path = some (.file content) := by
  rw [Entry.read, Entry.at?]
  rcases root.locate true path with e | ⟨names⟩ | ⟨above, name⟩
  · simp [bind, Except.bind]
  · simp only [bind, Except.bind]
    split
    · next heq => simp [heq]
    · next heq => simp [heq]
    · next hfile hdirectory =>
      cases hget : root.get? names with
      | none => simp
      | some e => cases e <;> simp_all
  · simp [bind, Except.bind]

theorem said?_of_kind? (h : root.kind? path ≠ some .file) : said? root path = none := by
  cases hread : root.read path with
  | ok content =>
    rw [Entry.kind?, read_eq_ok_iff.mp hread] at h
    exact absurd rfl h
  | error e =>
    rw [said?, textAt, hread]
    rfl

/-- What loading makes of a file. -/
def layerOf (root : Entry) (path : String) : Except LoadError (Option (Source × ConfigValue)) :=
  (said? root path).elim
    (if root.kind? path = some .file then .error (.notToml path) else .ok none)
    fun v => .ok (some (.file path, v))

theorem run_readText (path : String) (root : Entry) :
    (Files.readText path : TreeM _).run root = (textAt root path, root) := by
  rw [Files.readText, TreeM.run_bind_of_eq (TreeM.run_read path root), textAt]
  cases root.read path with
  | error e => rfl
  | ok content =>
    simp only [Except.bind]
    cases String.fromUTF8? content <;> rfl

theorem run_isFile (path : String) (root : Entry) :
    (Files.isFile path : TreeM _).run root = (decide (root.kind? path = some .file), root) := rfl

theorem run_fileLayer (path : String) (root : Entry) :
    (fileLayer path : TreeM _).run root = (layerOf root path, root) := by
  rw [fileLayer, TreeM.run_bind_of_eq (run_isFile path root), layerOf]
  by_cases hkind : root.kind? path = some .file
  · rw [decide_eq_true hkind, if_pos rfl, TreeM.run_bind_of_eq (run_readText path root)]
    rw [if_pos hkind, said?]
    cases textAt root path with
    | error e => rfl
    | ok text =>
      simp only [Except.toOption, Option.bind_some]
      cases Toml.read text.toList <;> rfl
  · rw [said?_of_kind? hkind, if_neg (decide_eq_true_iff.not.mpr hkind), if_neg hkind]
    rfl

/-- The files are read one after the other, and none is changed. -/
theorem run_mapM_fileLayer (paths : List String) (root : Entry) :
    (paths.mapM fileLayer : TreeM _).run root = (paths.map (layerOf root), root) := by
  induction paths with
  | nil => rfl
  | cons path paths ih =>
    rw [List.mapM_cons, TreeM.run_bind_of_eq (run_fileLayer path root), TreeM.run_bind_of_eq ih]
    rfl

/-- The first file that is no TOML ends it. -/
theorem mapM_layerOf (root : Entry) (paths : List String) :
    (paths.map (layerOf root)).mapM id = (paths.find? (NotToml root ·)).elim
      (.ok (paths.map fun path => (said? root path).map (Source.file path, ·)))
      fun path => .error (.notToml path) := by
  induction paths with
  | nil => rfl
  | cons path paths ih =>
    rw [List.map_cons, List.mapM_cons, ih, List.find?_cons, id, layerOf]
    cases hsaid : said? root path with
    | some v =>
      have h : ¬ NotToml root path := fun h => by simp [h.2] at hsaid
      rw [decide_eq_false h]
      cases paths.find? (NotToml root ·) <;> simp [hsaid] <;> rfl
    | none =>
      by_cases hkind : root.kind? path = some .file
      · have h : NotToml root path := ⟨hkind, hsaid⟩
        rw [decide_eq_true h, if_pos hkind]
        rfl
      · have h : ¬ NotToml root path := fun h => hkind h.1
        rw [decide_eq_false h, if_neg hkind]
        cases paths.find? (NotToml root ·) <;> simp [hsaid] <;> rfl

def sourcesAt (root : Entry) (home : String) (workspace : Option String)
    (assignments : List (String × String)) : List (Source × ConfigValue) :=
  (files home workspace).filterMap (fun path => (said? root path).map (Source.file path, ·)) ++
    [(.environment, Environment.layer assignments)]

/-- What loading returns. -/
def loaded (root : Entry) (home : String) (workspace : Option String)
    (assignments : List (String × String)) : Except LoadError Settings :=
  ((files home workspace).find? (NotToml root ·)).elim
    (ofLayers (sourcesAt root home workspace assignments)) fun path => .error (.notToml path)

theorem run_load (root : Entry) (home : String) (workspace : Option String)
    (assignments : List (String × String)) : (load home workspace assignments : TreeM _).run root
      = (loaded root home workspace assignments, root) := by
  rw [load, TreeM.run_bind_of_eq (run_mapM_fileLayer _ root), mapM_layerOf, loaded, files]
  cases (userFile home :: workspace.toList.map workspaceFile).find? (NotToml root ·) with
  | some path => rfl
  | none =>
    simp only [Option.elim_none, sourcesAt, files, List.filterMap_map]
    rfl

end

/-! ## Layers with their sources -/

/-- What the uppermost layer says that says anything at a path; the first layer is lowest. -/
def uppermost (layers : List ConfigValue) (path : List String) : Option ConfigValue :=
  layers.reverse.findSome? (·.get? path)

/-- A setting is what the uppermost layer says of it. -/
theorem resolve_stack_iff {layers : List ConfigValue} (hlayers : ∀ layer ∈ layers, layer.IsLayer)
    (hgroups : ∀ layer ∈ layers, layer.GroupsAreTables) {s : Setting} (hs : s ∈ Setting.all) {a : s.Value} :
    s.resolve ((stack layers).get? s.path) = .ok a ↔ s.resolve (uppermost layers s.path) = .ok a := by
  have hgroup : ∀ s ∈ Setting.all, s.group ∈ Settings.names := by decide
  rw [Setting.path, get?_stack hlayers fun layer hlayer => hgroups layer hlayer _ (hgroup s hs), uppermost,
    ← List.getLast?_filterMap]
  exact (Setting.single s hs).elim_eq_ok_iff (rel_joined _)

theorem groupsAreTables_stack {layers : List ConfigValue} (hlayers : ∀ layer ∈ layers, layer.IsLayer)
    (hgroups : ∀ layer ∈ layers, layer.GroupsAreTables) : (stack layers).GroupsAreTables :=
  fun group hgroup => .stack hlayers fun layer hlayer => hgroups layer hlayer group hgroup

theorem map_sourcesAt (root : Entry) (home : String) (workspace : Option String)
    (assignments : List (String × String)) : (sourcesAt root home workspace assignments).map (·.2)
      = layersAt root home workspace assignments := by
  rw [sourcesAt, layersAt, List.map_append, List.map_filterMap]
  simp only [Option.map_map, Function.comp_def, Option.map_id']
  rfl

/-- The source of the last layer that says something at a path. -/
theorem sourceOf_eq (layers : List (Source × ConfigValue)) (path : List String) :
    sourceOf layers path
      = (layers.filterMap fun l => (l.2.get? path).map fun _ => l.1).getLast?.getD .environment := by
  rw [sourceOf, List.getLast?_filterMap]
  generalize layers.reverse = layers
  induction layers with
  | nil => rfl
  | cons l layers ih =>
    rw [List.find?_cons, List.findSome?_cons]
    cases hget : l.2.get? path with
    | none => simpa [hget] using ih
    | some v => simp [hget]

section
variable {layers layers' : List (Source × ConfigValue)}

theorem ofLayers_eq_ok_iff (hlayers : ∀ layer ∈ layers.map (·.2), layer.IsLayer)
    (hgroups : ∀ layer ∈ layers.map (·.2), layer.GroupsAreTables) {settings : Settings} :
    ofLayers layers = .ok settings ↔
      ∀ s ∈ Setting.all, s.resolve (uppermost (layers.map (·.2)) s.path) = .ok (s.of settings) := by
  rw [ofLayers, mapError_eq_ok_iff, Settings.ofConfig_eq_ok_iff (IsLayer.stack hlayers).isTable
    (groupsAreTables_stack hlayers hgroups)]
  exact forall₂_congr fun s hs => resolve_stack_iff hlayers hgroups hs

/-- What layers say of a setting, each with its source. -/
def saidOf (layers : List (Source × ConfigValue)) (path : List String) : List (Source × ConfigValue) :=
  layers.filterMap fun l => (l.2.get? path).map (l.1, ·)

/-- Layers that say the same of the settings give the same, and fail by the same fault. -/
theorem ofLayers_congr (hlayers : ∀ layer ∈ layers.map (·.2), layer.IsLayer)
    (hgroups : ∀ layer ∈ layers.map (·.2), layer.GroupsAreTables)
    (hlayers' : ∀ layer ∈ layers'.map (·.2), layer.IsLayer)
    (hgroups' : ∀ layer ∈ layers'.map (·.2), layer.GroupsAreTables)
    (h : ∀ path ∈ Setting.paths, saidOf layers path = saidOf layers' path) :
    ofLayers layers = ofLayers layers' := by
  have hvalues (layers : List (Source × ConfigValue)) (path : List String) :
      (layers.map (·.2)).filterMap (·.get? path) = (saidOf layers path).map (·.2) := by
    rw [saidOf, List.map_filterMap, List.filterMap_map]
    simp only [Option.map_map, Function.comp_def, Option.map_id']
  have hsource (layers : List (Source × ConfigValue)) (path : List String) :
      sourceOf layers path = ((saidOf layers path).map (·.1)).getLast?.getD .environment := by
    rw [sourceOf_eq, saidOf, List.map_filterMap]
    simp only [Option.map_map, Function.comp_def]
  have hget : ∀ path ∈ Setting.paths,
      (stack (layers.map (·.2))).get? path = (stack (layers'.map (·.2))).get? path := by
    intro path hpath
    obtain ⟨s, hs, rfl⟩ := List.mem_map.mp hpath
    have hgroup : ∀ s ∈ Setting.all, s.group ∈ Settings.names := by decide
    rw [Setting.path, get?_stack hlayers fun layer hlayer => hgroups layer hlayer _ (hgroup s hs),
      get?_stack hlayers' fun layer hlayer => hgroups' layer hlayer _ (hgroup s hs), hvalues, hvalues]
    exact congrArg (fun said => joined (said.map (·.2))) (h _ hpath)
  have hv := (IsLayer.stack hlayers).isTable
  have hgroups := groupsAreTables_stack hlayers hgroups
  rw [ofLayers, ofLayers, ← Settings.ofConfig_congr hv hgroups (IsLayer.stack hlayers').isTable
    (groupsAreTables_stack hlayers' hgroups') hget]
  cases hconfig : Settings.ofConfig (stack (layers.map (·.2))) with
  | ok settings => rfl
  | error e =>
    have hpath := Settings.path_of_error hv hgroups hconfig
    simp only [Except.mapError, hsource, h _ hpath]

end

/-! ## Loading -/

section
variable (root root' : Entry) (home : String) (workspace : Option String)
  (assignments assignments' : List (String × String))

/-- The same is said of the settings; of anything else there may be said what one likes. -/
structure SaySame : Prop where
  toml : ∀ path ∈ files home workspace, NotToml root path ↔ NotToml root' path
  file : ∀ path ∈ files home workspace, ∀ p ∈ Setting.paths,
    (said? root path).bind (·.get? p) = (said? root' path).bind (·.get? p)
  environment : ∀ p ∈ Setting.paths,
    (Environment.layer assignments).get? p = (Environment.layer assignments').get? p

variable {root root' home workspace assignments assignments'}

theorem SaySame.saidOf_eq (h : SaySame root root' home workspace assignments assignments')
    {p : List String} (hp : p ∈ Setting.paths) :
    saidOf (sourcesAt root home workspace assignments) p
      = saidOf (sourcesAt root' home workspace assignments') p := by
  have hsaid (root : Entry) (assignments : List (String × String)) :
      saidOf (sourcesAt root home workspace assignments) p
        = (files home workspace).filterMap
            (fun path => ((said? root path).bind (·.get? p)).map (Source.file path, ·)) ++
          (((Environment.layer assignments).get? p).map (Source.environment, ·)).toList := by
    rw [saidOf, sourcesAt, List.filterMap_append, List.filterMap_filterMap]
    refine congrArg₂ (· ++ ·) (List.filterMap_congr fun path _ => ?_) ?_
    · cases said? root path <;> rfl
    · rw [List.filterMap_cons, List.filterMap_nil]
      cases (Environment.layer assignments).get? p <;> rfl
  rw [hsaid, hsaid, h.environment p hp,
    List.filterMap_congr fun path hpath => by rw [h.file path hpath p hp]]

theorem isLayer_of_mem_sourcesAt :
    ∀ layer ∈ (sourcesAt root home workspace assignments).map (·.2), layer.IsLayer := by
  rw [map_sourcesAt]
  exact isLayer_of_mem_layersAt

theorem loaded_eq_ok_iff
    (hgroups : ∀ layer ∈ layersAt root home workspace assignments, layer.GroupsAreTables)
    {settings : Settings} : loaded root home workspace assignments = .ok settings ↔
      (∀ path ∈ files home workspace, ¬ NotToml root path) ∧
        ∀ s ∈ Setting.all, s.resolve (uppermost (layersAt root home workspace assignments) s.path)
          = .ok (s.of settings) := by
  rw [loaded]
  cases hfind : (files home workspace).find? (NotToml root ·) with
  | none =>
    have htoml : ∀ path ∈ files home workspace, ¬ NotToml root path := by simpa using hfind
    rw [← map_sourcesAt] at hgroups ⊢
    rw [Option.elim_none, ofLayers_eq_ok_iff isLayer_of_mem_sourcesAt hgroups]
    exact ⟨fun h => ⟨htoml, h⟩, fun h => h.2⟩
  | some path =>
    have hnot : NotToml root path := by simpa using List.find?_some hfind
    refine ⟨fun h => ?_, fun h => absurd hnot (h.1 path (List.mem_of_find?_eq_some hfind))⟩
    cases h

theorem loaded_eq_error_iff
    (hgroups : ∀ layer ∈ layersAt root home workspace assignments, layer.GroupsAreTables) :
    (∃ e, loaded root home workspace assignments = .error e) ↔
      (∃ path ∈ files home workspace, NotToml root path) ∨
        ∃ s ∈ Setting.all, ∃ v e,
          uppermost (layersAt root home workspace assignments) s.path = some v ∧ s.as v = .error e := by
  have hfails (result : Except LoadError Settings) : (∃ e, result = .error e) ↔ ∀ a, result ≠ .ok a := by
    cases result <;> simp
  rw [hfails]
  constructor
  · intro h
    by_contra! hnot
    obtain ⟨settings, hsettings⟩ : ∃ settings, ∀ s ∈ Setting.all,
        s.resolve (uppermost (layersAt root home workspace assignments) s.path)
          = .ok (s.of settings) := by
      refine Setting.exists_settings fun s hs => ?_
      rw [Setting.resolve]
      cases hv : uppermost (layersAt root home workspace assignments) s.path with
      | none => exact ⟨_, rfl⟩
      | some v =>
        rw [Option.elim_some]
        cases ha : s.as v with
        | ok a => exact ⟨a, rfl⟩
        | error e => exact absurd ha (hnot.2 s hs v e hv)
    exact h settings ((loaded_eq_ok_iff hgroups).mpr ⟨hnot.1, hsettings⟩)
  · rintro h settings hok
    obtain ⟨htoml, hsettings⟩ := (loaded_eq_ok_iff hgroups).mp hok
    rcases h with ⟨path, hpath, hnot⟩ | ⟨s, hs, v, e, hv, he⟩
    · exact htoml path hpath hnot
    · have hresolve := hsettings s hs
      rw [Setting.resolve, hv, Option.elim_some, he] at hresolve
      cases hresolve

theorem SaySame.loaded_eq (h : SaySame root root' home workspace assignments assignments')
    (hgroups : ∀ layer ∈ layersAt root home workspace assignments, layer.GroupsAreTables)
    (hgroups' : ∀ layer ∈ layersAt root' home workspace assignments', layer.GroupsAreTables) :
    loaded root' home workspace assignments' = loaded root home workspace assignments := by
  rw [← map_sourcesAt] at hgroups hgroups'
  rw [loaded, loaded, ofLayers_congr isLayer_of_mem_sourcesAt hgroups isLayer_of_mem_sourcesAt hgroups'
    fun p hp => h.saidOf_eq hp,
    List.find?_congr fun path hpath => decide_eq_decide.mpr (h.toml path hpath).symm]

/-- Each setting is as the uppermost layer says: the environment, else the file of the workspace, else
that of the user, else the default. Loading fails exactly if a file is no TOML or what the uppermost
layer says of a setting is of the wrong type; the environment in turn is resolved variable by variable,
and nothing but the settings matters, not even for what is reported. -/
theorem run_load_uppermost (root : Entry) (home : String) (workspace : Option String)
    (assignments : List (String × String))
    (hgroups : ∀ layer ∈ layersAt root home workspace assignments, layer.GroupsAreTables) :
    ∃ result, (load home workspace assignments : TreeM _).run root = (result, root) ∧
      (∀ settings, result = .ok settings ↔
        (∀ path ∈ files home workspace, ¬ NotToml root path) ∧
          ∀ s ∈ Setting.all, s.resolve (uppermost (layersAt root home workspace assignments) s.path)
            = .ok (s.of settings)) ∧
      ((∃ e, result = .error e) ↔
        (∃ path ∈ files home workspace, NotToml root path) ∨
          ∃ s ∈ Setting.all, ∃ v e,
            uppermost (layersAt root home workspace assignments) s.path = some v ∧ s.as v = .error e) ∧
      (∀ root' assignments',
        (∀ layer ∈ layersAt root' home workspace assignments', layer.GroupsAreTables) →
        SaySame root root' home workspace assignments assignments' →
          (load home workspace assignments' : TreeM _).run root' = (result, root')) ∧
      ∀ s ∈ Setting.all,
        (∀ v ∈ Environment.variableLayers assignments, v.GroupIsTable s.group) →
          ((Environment.layer assignments).get? s.path).Rel Alike
            (uppermost (Environment.variableLayers assignments) s.path) := by
  refine ⟨_, run_load root home workspace assignments, fun settings => loaded_eq_ok_iff hgroups,
    loaded_eq_error_iff hgroups, fun root' assignments' hgroups' hsame => ?_, fun s hs hvariables => ?_⟩
  · rw [run_load, hsame.loaded_eq hgroups hgroups']
  · rw [Environment.layer_eq_stack, Setting.path,
      get?_stack (fun v hv => Environment.isLayer_of_mem_variableLayers hv) hvariables, uppermost,
      ← List.getLast?_filterMap]
    exact rel_joined _

end

theorem toOption_eq_some_iff {ε α : Type} {x : Except ε α} {a : α} : x.toOption = some a ↔ x = .ok a := by
  cases x <;> simp [Except.toOption]

/-- A value of the wrong type in the file of the user, which the file of the workspace replaces. -/
def overridden : Entry := .directory
  [("home", .directory [(".config", .directory [("cscout", .directory
      [("config.toml", .file "[detection]\nlexical = 3\n".toUTF8)])])]),
    ("work", .directory [(".cscout", .directory
      [("config.toml", .file "theme = 1\n[detection]\nlexical = false\n".toUTF8)])])]

theorem run_load_uppermost_overridden :
    (∀ layer ∈ layersAt overridden "/home" (some "/work") [("CSCOUT_CLASSIFIER__EPOCHS", "7")],
      layer.GroupsAreTables) ∧
    (load "/home" (some "/work") [("CSCOUT_CLASSIFIER__EPOCHS", "7")] : TreeM _).run overridden
      = (.ok { detection := { lexical := false }, classifier := { epochs := 7 } }, overridden) := by
  have hgroups : ∀ layer ∈
      layersAt overridden "/home" (some "/work") [("CSCOUT_CLASSIFIER__EPOCHS", "7")],
      layer.GroupsAreTables := by
    unfold GroupsAreTables
    decide +kernel
  obtain ⟨result, hrun, hok, -⟩ := run_load_uppermost overridden "/home" (some "/work")
    [("CSCOUT_CLASSIFIER__EPOCHS", "7")] hgroups
  refine ⟨hgroups, hrun.trans (Prod.ext ((hok _).mpr ⟨by decide +kernel, ?_⟩) rfl)⟩
  simp only [Setting.all, List.forall_mem_cons, List.not_mem_nil, false_implies, implies_true, and_true,
    ← toOption_eq_some_iff]
  decide +kernel

end Config

end DefectScan
