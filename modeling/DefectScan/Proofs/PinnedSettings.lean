import DefectScan.CommandLine.Run
import DefectScan.Proofs.LoadedSettings
import DefectScan.Proofs.PrintedSettings
import DefectScan.Proofs.WrittenFiles

/-!
# Settings that are written down

Settings that are shown can be kept: the text, written to the file of the workspace, is loaded as the
same settings. It says each of them (`Toml.settingsValue`), so nothing of the file of the user is left,
not even of one whose values are of the wrong type or whose groups are no tables. A new file of settings
therefore holds every setting at its default (`CommandLine.shown_pins`).
-/

namespace DefectScan

open ConfigValue
open Toml (settingsValue)

/-! ## A layer that says everything -/

theorem resolve_settingsValue (c : Settings) :
    ∀ s ∈ Setting.all, ∃ x, (settingsValue c).get? s.path = some x ∧ s.as x = .ok (s.of c) := by
  have hcount (n : Nat) : asCount (int n) = .ok n := by
    rw [asCount, if_neg (Int.not_lt.mpr (Int.natCast_nonneg n)), Int.toNat_natCast]
  simp only [Setting.all, List.forall_mem_cons, List.not_mem_nil, false_implies, implies_true, and_true]
  exact ⟨⟨_, rfl, rfl⟩, ⟨_, rfl, rfl⟩, ⟨_, rfl, rfl⟩, ⟨_, rfl, rfl⟩, ⟨_, rfl, hcount _⟩,
    ⟨_, rfl, hcount _⟩, ⟨_, rfl, rfl⟩, ⟨_, rfl, rfl⟩, ⟨_, rfl, rfl⟩, ⟨_, rfl, rfl⟩, ⟨_, rfl, rfl⟩,
    ⟨_, rfl, rfl⟩⟩

theorem exists_group_settingsValue (c : Settings) :
    ∀ group ∈ Settings.names, ∃ members, (settingsValue c).get? [group] = some (table members) := by
  simp only [Settings.names_eq, List.forall_mem_cons, List.not_mem_nil, false_implies, implies_true,
    and_true]
  exact ⟨⟨_, rfl⟩, ⟨_, rfl⟩, ⟨_, rfl⟩⟩

/-- What is below a layer that says everything does not matter. -/
theorem ofConfig_overlay_settingsValue {low : ConfigValue} (hlow : low.IsLayer) {c : Settings}
    (hc : (settingsValue c).IsLayer) : Settings.ofConfig (low.overlay (settingsValue c)) = .ok c := by
  have hgroup : (settingsValue c).GroupsAreTables := by
    intro group hmem v hv
    obtain ⟨members, hmembers⟩ := exists_group_settingsValue c group hmem
    exact ⟨members, Option.some_inj.mp (hv.symm.trans hmembers)⟩
  have hgroups : (low.overlay (settingsValue c)).GroupsAreTables := by
    intro group hmem
    refine .overlay hlow hc (fun hnone => ?_) (hgroup group hmem)
    obtain ⟨members, hmembers⟩ := exists_group_settingsValue c group hmem
    rw [hmembers] at hnone
    cases hnone
  rw [Settings.ofConfig_eq_ok_iff (hlow.overlay hc).isTable hgroups]
  intro s hs
  obtain ⟨x, hx, has⟩ := resolve_settingsValue c s hs
  have hmem : ∀ s ∈ Setting.all, s.group ∈ Settings.names := by decide
  obtain ⟨there, hthere, -⟩ := get?_overlay_of_some hlow hc (hgroup s.group (hmem s hs)) hx
  have halike : Alike (there.elim x (ConfigValue.overlay · x)) x := by
    cases there with
    | none => exact .inl rfl
    | some y => exact alike_overlay y x
  rw [Setting.path, hthere, Setting.resolve]
  exact ((Setting.single s hs).elim_eq_ok_iff (.some halike)).mpr has

/-! ## Loading what is written -/

namespace Config

/-- No variable is meant for the program. -/
def NoVariables (assignments : List (String × String)) : Prop :=
  ∀ a ∈ assignments, ¬ Environment.start.toList <+: a.1.toList.map Environment.lowerAscii

instance (assignments : List (String × String)) : Decidable (NoVariables assignments) :=
  inferInstanceAs (Decidable (∀ a ∈ assignments, _))

theorem NoVariables.layer_eq {assignments : List (String × String)} (h : NoVariables assignments) :
    Environment.layer assignments = table [] := by
  have hnone : Environment.variableLayers assignments = [] := by
    refine List.filterMap_eq_nil_iff.mpr fun a ha => ?_
    have hprefix := mt List.isPrefixOf_iff_prefix.mp (h a ha)
    rw [Environment.pathOf?]
    simp only [if_neg hprefix, Option.map_none]
  rw [Environment.layer_eq_stack, hnone]
  rfl

section
variable {root : Entry} {home workspace : String} {assignments : List (String × String)}

theorem ofLayers_pinned {layers : List (Source × ConfigValue)} {source : Source} {c : Settings}
    (hlayers : ∀ layer ∈ layers.map (·.2), layer.IsLayer) (hc : (settingsValue c).IsLayer) :
    ofLayers (layers ++ [(source, settingsValue c)] ++ [(.environment, table [])]) = .ok c := by
  have hempty (v : ConfigValue) (hv : v.IsLayer) : v.overlay (table []) = v := by
    obtain ⟨members, rfl⟩ := hv.isTable
    rw [overlay, overlayMembers]
  rw [ofLayers, List.map_append, List.map_append, List.map_singleton, List.map_singleton, stack_concat,
    stack_concat, hempty _ ((IsLayer.stack hlayers).overlay hc),
    ofConfig_overlay_settingsValue (.stack hlayers) hc]
  rfl

/-- A file of the workspace that says everything decides alone. -/
theorem loaded_of_said {c : Settings}
    (hsaid : said? root (workspaceFile workspace) = some (settingsValue c))
    (huser : ¬ NotToml root (userFile home)) (hvariables : NoVariables assignments) :
    loaded root home (some workspace) assignments = .ok c := by
  have htoml : ¬ NotToml root (workspaceFile workspace) := fun h => by simp [h.2] at hsaid
  have hfind : (files home (some workspace)).find? (NotToml root ·) = none := by
    simp [files, huser, htoml]
  have hlast : [workspaceFile workspace].filterMap (fun path => (said? root path).map (Source.file path, ·))
      = [(.file (workspaceFile workspace), settingsValue c)] := by
    simp [hsaid]
  have hsplit : files home (some workspace) = [userFile home] ++ [workspaceFile workspace] := rfl
  rw [loaded, hfind, Option.elim_none, sourcesAt, hvariables.layer_eq, hsplit, List.filterMap_append, hlast]
  refine ofLayers_pinned (fun layer hlayer => ?_) (isLayer_of_said? hsaid)
  obtain ⟨l, hl, rfl⟩ := List.mem_map.mp hlayer
  obtain ⟨path, -, hpath⟩ := List.mem_filterMap.mp hl
  obtain ⟨v, hv, rfl⟩ := Option.map_eq_some_iff.mp hpath
  exact isLayer_of_said? hv

theorem said?_of_write {root' : Entry} {path text : String} {v : ConfigValue}
    (hwrite : root.write path text.toUTF8 = .ok root') (hread : Toml.read text.toList = some v) :
    said? root' path = some v := by
  have htext : String.fromUTF8? text.toUTF8 = some text := dif_pos text.isValidUTF8
  rw [said?, textAt, Entry.read_of_write hwrite]
  simp only [Except.bind, htext, Option.elim_some, Except.toOption, Option.bind_some, hread]

end

end Config

/-! ## Runs of commands -/

namespace CommandLine

/-- A run of a command on a tree of files: how it ends, what has been printed, what it leaves. -/
def ran {α : Type} (x : CommandM TreeM α) (output : String) (root : Entry) :
    (Except Failure α × String) × Entry :=
  (x.run.run output).run root

section
variable {α β ε : Type} {x : CommandM TreeM α} {f : α → CommandM TreeM β} {failure : ε → Failure}
  {y : TreeM (Except ε α)} {output output' : String} {root root' : Entry} {a : α} {b : β}

theorem ran_bind_eq_ok_iff : ran (x >>= f) output root = ((.ok b, output'), root') ↔
    ∃ a between changed, ran x output root = ((.ok a, between), changed) ∧
      ran (f a) between changed = ((.ok b, output'), root') := by
  have hbind : ran (x >>= f) output root
      = ((ExceptT.bindCont f (ran x output root).1.1).run (ran x output root).1.2).run
        (ran x output root).2 := rfl
  rw [hbind]
  obtain ⟨⟨result, between⟩, changed⟩ := ran x output root
  cases result with
  | ok a =>
    constructor
    · exact fun h => ⟨a, between, changed, rfl, h⟩
    · rintro ⟨a', between', changed', heq, h⟩
      cases heq
      exact h
  | error e =>
    constructor
    · intro h
      cases h
    · rintro ⟨a', between', changed', heq, -⟩
      cases heq

theorem ran_printLine (s : String) :
    ran (printLine s) output root = ((.ok (), output ++ (s ++ "\n")), root) := rfl

theorem ran_lift (z : TreeM α) :
    ran (z : CommandM TreeM α) output root = ((.ok (z.run root).1, output), (z.run root).2) := rfl

/-- What is done with the files prints nothing. -/
theorem ran_attempt_eq_ok_iff : ran (attempt failure y) output root = ((.ok a, output'), root') ↔
    output' = output ∧ y.run root = (.ok a, root') := by
  rw [attempt, ran_bind_eq_ok_iff]
  simp only [ran_lift]
  obtain ⟨result, changed⟩ := y.run root
  constructor
  · rintro ⟨result', between, changed', heq, h⟩
    cases heq
    cases result <;> cases h
    exact ⟨rfl, rfl⟩
  · rintro ⟨rfl, heq⟩
    cases heq
    exact ⟨_, _, _, rfl, rfl⟩

theorem ran_settingsText_eq_ok_iff {c : Settings} {text : String} :
    ran (settingsText c) output root = ((.ok text, output'), root') ↔
      output' = output ∧ root' = root ∧ (Toml.settingsText? c).map String.ofList = some text := by
  rw [settingsText]
  cases Toml.settingsText? c with
  | none =>
    constructor
    · intro h
      cases h
    · rintro ⟨-, -, h⟩
      cases h
  | some text' =>
    constructor
    · intro h
      cases h
      exact ⟨rfl, rfl, rfl⟩
    · rintro ⟨rfl, rfl, h⟩
      cases h
      rfl

theorem ran_loadSettings_eq_ok_iff {s : Surroundings} {workspace what : String} {c : Settings} :
    ran (loadSettings s workspace what) output root = ((.ok c, output'), root') ↔
      output' = output ∧ root' = root ∧
        Config.loaded root s.home (some workspace) s.assignments = .ok c := by
  rw [loadSettings, ran_attempt_eq_ok_iff, Config.run_load, Prod.mk.injEq]
  grind

end

/-- Settings are shown as their text. -/
theorem ran_configShow {s : Surroundings} {workspace output : String} {root : Entry} {c : Settings}
    {text : List Char} (hload : Config.loaded root s.home (some workspace) s.assignments = .ok c)
    (htext : Toml.settingsText? c = some text) :
    ran (runCommand s workspace .configShow) output root
      = ((.ok (), output ++ (String.ofList text ++ "\n")), root) := by
  refine ran_bind_eq_ok_iff.mpr
    ⟨c, output, root, ran_loadSettings_eq_ok_iff.mpr ⟨rfl, rfl, hload⟩, ?_⟩
  refine ran_bind_eq_ok_iff.mpr ⟨String.ofList text, output, root, ?_, ran_printLine _⟩
  exact ran_settingsText_eq_ok_iff.mpr ⟨rfl, rfl, by rw [htext, Option.map_some]⟩

/-- What is printed once a new file of settings is there. -/
def created (workspace : String) : String :=
  "Created default configuration at: " ++ Config.workspaceFile workspace ++ "\n"

theorem exists_ne_created (output path : String) :
    output ++ ("Configuration file already exists at: " ++ path ++ "\n")
      ≠ output ++ ("Created default configuration at: " ++ path ++ "\n") := by
  intro h
  have hlength := congrArg String.length h
  have hexists : "Configuration file already exists at: ".length = 38 := by decide
  have hcreated : "Created default configuration at: ".length = 34 := by decide
  simp only [String.length_append, hexists, hcreated] at hlength
  omega

theorem write_eq_ok_of_run {path : String} {content : ByteArray} {root root' : Entry} {u : Unit}
    (h : (FileSystem.write path content : TreeM _).run root = (.ok u, root')) :
    root.write path content = .ok root' := by
  rw [TreeM.run_write] at h
  cases hwrite : root.write path content with
  | ok changed =>
    rw [hwrite] at h
    cases h
    rfl
  | error e =>
    rw [hwrite] at h
    cases h

/-- A new file of settings holds the text of the defaults. -/
theorem exists_write_of_configInit {workspace output : String} {root root' : Entry}
    (h : ran (configInit workspace) output root = ((.ok (), output ++ created workspace), root')) :
    ∃ (before : Entry) (text : List Char), Toml.settingsText? {} = some text ∧
      before.write (Config.workspaceFile workspace) (String.ofList text).toUTF8 = .ok root' := by
  obtain ⟨_, _, made, hmade, h⟩ := ran_bind_eq_ok_iff.mp h
  obtain ⟨rfl, -⟩ := ran_attempt_eq_ok_iff.mp hmade
  obtain ⟨present, _, looked, hpresent, h⟩ := ran_bind_eq_ok_iff.mp h
  cases hpresent
  split at h
  · have hprinted := congrArg (·.1.2) h
    exact absurd hprinted (exists_ne_created _ _)
  · obtain ⟨shown, _, _, hshown, h⟩ := ran_bind_eq_ok_iff.mp h
    obtain ⟨rfl, rfl, hmap⟩ := ran_settingsText_eq_ok_iff.mp hshown
    obtain ⟨text, htext, rfl⟩ := Option.map_eq_some_iff.mp hmap
    obtain ⟨_, _, written, hwritten, h⟩ := ran_bind_eq_ok_iff.mp h
    obtain ⟨rfl, hwrite⟩ := ran_attempt_eq_ok_iff.mp hwritten
    cases h
    exact ⟨_, text, htext, write_eq_ok_of_run hwrite⟩

/-- The text of settings is where their numbers are no larger than the format allows. -/
theorem exists_settingsText_iff (c : Settings) : (∃ text, Toml.settingsText? c = some text) ↔
    c.classifier.maxFeatures ≤ Toml.maxInteger ∧ c.classifier.epochs ≤ Toml.maxInteger := by
  by_cases hmax : c.classifier.maxFeatures ≤ Toml.maxInteger
  all_goals by_cases hepochs : c.classifier.epochs ≤ Toml.maxInteger
  all_goals simp [Toml.settingsText?, Toml.integerText?, hmax, hepochs]

/-- In a tree the file of a workspace decides on all settings, whatever file of settings the user has,
so long as it is TOML. -/
def Pins (root : Entry) (workspace : String) (c : Settings) : Prop :=
  ∀ home assignments, ¬ Config.NotToml root (Config.userFile home) → Config.NoVariables assignments →
    (Config.load home (some workspace) assignments : TreeM _).run root = (.ok c, root)

theorem pins_of_write {c : Settings} (hc : Toml.Finite c) {text : List Char}
    (htext : Toml.settingsText? c = some text) {root root' : Entry} {workspace ending : String}
    (hending : ending = "" ∨ ending = "\n")
    (hwrite : root.write (Config.workspaceFile workspace) (String.ofList text ++ ending).toUTF8
      = .ok root') :
    Pins root' workspace c := by
  intro home assignments huser hvariables
  have hread : Toml.read (String.ofList text ++ ending).toList = some (settingsValue c) := by
    rw [String.toList_append, String.toList_ofList]
    refine Toml.read_settingsText hc htext ?_
    rcases hending with rfl | rfl
    · exact .inl rfl
    · exact .inr rfl
  rw [Config.run_load,
    Config.loaded_of_said (Config.said?_of_write hwrite hread) huser hvariables]

theorem finite_default : Toml.Finite {} := ⟨by decide, by decide, by decide⟩

/-- Settings with finite numbers can be shown exactly if their counts are within the format. What is
shown, written to the file of the workspace with or without its last line feed, pins all settings to
what they are; and a new file of settings pins them to the defaults. -/
theorem shown_pins :
    (∀ c : Settings, Toml.Finite c →
      ((∃ text, Toml.settingsText? c = some text) ↔
        c.classifier.maxFeatures ≤ Toml.maxInteger ∧ c.classifier.epochs ≤ Toml.maxInteger) ∧
      ∀ text, Toml.settingsText? c = some text →
        (∀ (s : Surroundings) (workspace output : String) (root : Entry),
          (Config.load s.home (some workspace) s.assignments : TreeM _).run root = (.ok c, root) →
            ran (runCommand s workspace .configShow) output root
              = ((.ok (), output ++ (String.ofList text ++ "\n")), root)) ∧
        ∀ (root root' : Entry) (workspace ending : String), ending = "" ∨ ending = "\n" →
          root.write (Config.workspaceFile workspace) (String.ofList text ++ ending).toUTF8 = .ok root' →
            Pins root' workspace c) ∧
    ∀ (s : Surroundings) (root root' : Entry) (workspace output : String),
      ran (runCommand s workspace .configInit) output root
          = ((.ok (), output ++ created workspace), root') →
        Pins root' workspace {} := by
  refine ⟨fun c hc => ⟨exists_settingsText_iff c, fun text htext => ⟨?_, ?_⟩⟩, ?_⟩
  · intro s workspace output root hload
    rw [Config.run_load] at hload
    exact ran_configShow (congrArg Prod.fst hload) htext
  · intro root root' workspace ending hending hwrite
    exact pins_of_write hc htext hending hwrite
  · intro s root root' workspace output hran
    obtain ⟨before, text, htext, hwrite⟩ := exists_write_of_configInit hran
    rw [← @String.append_empty (String.ofList text)] at hwrite
    exact pins_of_write finite_default htext (.inl rfl) hwrite

/-- Settings whose text needs every kind of quotes. -/
def intricate : Settings where
  detection := { parallel := true }
  classifier :=
    { epochs := 9223372036854775807, learningRate := -0.0, l2Penalty := 1e-9, threshold := 0.1,
      modelPath := "it's \"here\"\n\\" }
  storage := { enabled := false, databasePath := "\x00é\"'''" }

/-- The file of the user says that a group is a number and that a number is a text. -/
def contrary (files : List (String × Entry)) : Entry := .directory
  [("home", .directory [(".config", .directory [("cscout", .directory
      [("config.toml", .file "detection = 3\n[classifier]\nepochs = 'many'\n".toUTF8)])])]),
    ("work", .directory [(".cscout", .directory files)])]

/-- Surroundings without a variable for the program. -/
def quiet : Surroundings := ⟨"/work", "/home", [("HOME", "/home")], ⟨0, 0⟩⟩

theorem shown_pins_intricate :
    (Toml.Finite intricate ∧ ∃ text, Toml.settingsText? intricate = some text ∧
      ∃ root', (contrary []).write (Config.workspaceFile "/work") (String.ofList text ++ "\n").toUTF8
          = .ok root' ∧
        ¬ Config.NotToml root' (Config.userFile quiet.home) ∧
        (Config.load quiet.home (some "/work") quiet.assignments : TreeM _).run root'
          = (.ok intricate, root')) ∧
    ∃ root', ran (runCommand quiet "/work" .configInit) "" (contrary [])
        = ((.ok (), "" ++ created "/work"), root') ∧
      (Config.load quiet.home (some "/work") quiet.assignments : TreeM _).run root' = (.ok {}, root') := by
  have hwrite (text : String) : (contrary []).write (Config.workspaceFile "/work") text.toUTF8
      = .ok (contrary [("config.toml", .file text.toUTF8)]) := rfl
  have huser (files : List (String × Entry)) :
      ¬ Config.NotToml (contrary files) (Config.userFile quiet.home) := by
    have hread : (contrary files).read (Config.userFile quiet.home)
        = .ok "detection = 3\n[classifier]\nepochs = 'many'\n".toUTF8 := rfl
    rw [Config.NotToml, Config.said?, Config.textAt, hread]
    exact fun h => absurd h.2 (by decide +kernel)
  have hvariables : Config.NoVariables quiet.assignments := by decide +kernel
  constructor
  · have hfinite : Toml.Finite intricate := ⟨by decide, by decide, by decide⟩
    obtain ⟨hshown, hpins⟩ := shown_pins.1 intricate hfinite
    obtain ⟨text, htext⟩ := hshown.mpr (by decide)
    exact ⟨hfinite, text, htext, _, hwrite _, huser _,
      (hpins text htext).2 _ _ "/work" "\n" (.inr rfl) (hwrite _) _ _ (huser _) hvariables⟩
  · obtain ⟨text, htext⟩ := (exists_settingsText_iff {}).mpr (by decide)
    have hran : ran (runCommand quiet "/work" .configInit) "" (contrary [])
        = ((.ok (), "" ++ created "/work"),
          contrary [("config.toml", .file (String.ofList text).toUTF8)]) := by
      refine ran_bind_eq_ok_iff.mpr ⟨(), "", contrary [], ran_attempt_eq_ok_iff.mpr ⟨rfl, rfl⟩, ?_⟩
      refine ran_bind_eq_ok_iff.mpr ⟨false, "", contrary [], rfl, ?_⟩
      refine ran_bind_eq_ok_iff.mpr ⟨String.ofList text, "", contrary [], ?_, ?_⟩
      · exact ran_settingsText_eq_ok_iff.mpr ⟨rfl, rfl, by rw [htext, Option.map_some]⟩
      · exact ran_bind_eq_ok_iff.mpr ⟨(), "", _, ran_attempt_eq_ok_iff.mpr ⟨rfl, rfl⟩, rfl⟩
    exact ⟨_, hran, shown_pins.2 quiet _ _ "/work" "" hran _ _ (huser _) hvariables⟩

end CommandLine

end DefectScan
