import DefectScan.Config.Value
import DefectScan.Settings

/-!
# Settings from layers

What the layers say must have the types of the settings. A group of settings is a table, or a list of
its settings in order. The first value of a wrong type is reported, in the order of names in tables
and in the order of places in lists.
-/

namespace DefectScan

inductive ConfigFault
  /-- A value of another type. -/
  | invalidType
  /-- A value of this type that is not allowed. -/
  | invalidValue
deriving DecidableEq, Repr

structure ConfigError where
  path : List String
  fault : ConfigFault
  found : ConfigValue
  expected : String

namespace ConfigError

def within (part : String) (e : ConfigError) : ConfigError := { e with path := part :: e.path }

/-- The path with dots between its parts. -/
def key (e : ConfigError) : String := ".".intercalate e.path

end ConfigError

namespace ConfigValue

def refuse {α : Type} (found : ConfigValue) (fault : ConfigFault) (expected : String) :
    Except ConfigError α :=
  .error { path := [], fault, found, expected }

def asBool : ConfigValue → Except ConfigError Bool
  | bool b => .ok b
  | v => v.refuse .invalidType "a boolean"

def asCount : ConfigValue → Except ConfigError Nat
  | int n => if n < 0 then (int n).refuse .invalidValue "usize" else .ok n.toNat
  | v => v.refuse .invalidType "usize"

def asFloat : ConfigValue → Except ConfigError Float
  | real x => .ok x
  | int n => .ok (.ofInt n)
  | v => v.refuse .invalidType "f64"

def asPath : ConfigValue → Except ConfigError String
  | str s => .ok s
  | v => v.refuse .invalidType "path string"

/-- A setting of a group, with the part of the path that leads to it. -/
def setting? (names : List String) (name : String) : ConfigValue → Option (String × ConfigValue)
  | table members => (members.lookup name).map fun v => (name, v)
  | list items => items[names.idxOf name]?.map fun v => (toString (names.idxOf name), v)
  | _ => none

/-- Reads a setting of a group that may be absent. -/
def read {α : Type} (v : ConfigValue) (names : List String) (name : String)
    (as : ConfigValue → Except ConfigError α) (other : α) : Except ConfigError α :=
  match v.setting? names name with
  | none => .ok other
  | some (part, x) => (as x).mapError (·.within part)

/-- What is wrong with a group, given what is wrong with its settings. -/
def check (v : ConfigValue) (expected : String) (settings : List (String × Except ConfigError Unit)) :
    Except ConfigError Unit :=
  match v with
  | table _ => (settings.mergeSort fun a b => decide (a.1 ≤ b.1)).forM (·.2)
  | list _ => settings.forM (·.2)
  | _ => v.refuse .invalidType expected

/-- Whether a setting could be read, without what it holds. -/
def verdict {α : Type} (x : Except ConfigError α) : Except ConfigError Unit := x.map fun _ => ()

end ConfigValue

/-! ## Groups -/

/-- A setting of a group: how it is read, and where it stands in the group. -/
structure GroupMember (G : Type) where
  Value : Type
  name : String
  as : ConfigValue → Except ConfigError Value
  get : G → Value
  set : G → Value → G

/-- A group has these settings and no others, and setting one of them leaves those before it alone. -/
structure GroupMember.Complete {G : Type} (members : List (GroupMember G)) : Prop where
  get_set : ∀ m ∈ members, ∀ g a, m.get (m.set g a) = a
  frame : members.Pairwise fun m m' => ∀ g a, m.get (m'.set g a) = m.get g
  ext : ∀ g g', (∀ m ∈ members, m.get g = m.get g') → g = g'

structure SettingsGroup (G : Type) where
  /-- What a value is expected to be that is no group. -/
  expected : String
  members : List (GroupMember G)
  complete : GroupMember.Complete members
  /-- What holds where nothing is said. -/
  other : G

namespace SettingsGroup

variable {G : Type}

def names (s : SettingsGroup G) : List String := s.members.map (·.name)

/-- What is said of one setting. -/
def read (s : SettingsGroup G) (v : ConfigValue) (m : GroupMember G) : Except ConfigError m.Value :=
  v.read s.names m.name m.as (m.get s.other)

def ofConfig (s : SettingsGroup G) (v : ConfigValue) : Except ConfigError G := do
  v.check s.expected (s.members.map fun m => (m.name, ConfigValue.verdict (s.read v m)))
  s.members.foldlM (fun g m => (s.read v m).map (m.set g)) s.other

end SettingsGroup

open ConfigValue (asBool asCount asFloat asPath)

namespace DetectionSettings

def members : List (GroupMember DetectionSettings) :=
  [⟨Bool, "lexical", asBool, (·.lexical), fun s b => { s with lexical := b }⟩,
    ⟨Bool, "structural", asBool, (·.structural), fun s b => { s with structural := b }⟩,
    ⟨Bool, "classifier", asBool, (·.classifier), fun s b => { s with classifier := b }⟩,
    ⟨Bool, "parallel", asBool, (·.parallel), fun s b => { s with parallel := b }⟩]

theorem complete_members : GroupMember.Complete members where
  get_set := by simp [members]
  frame := by simp [members]
  ext := by
    rintro ⟨⟩ ⟨⟩ h
    simpa [members] using h

def group : SettingsGroup DetectionSettings :=
  ⟨"struct DetectionConfig", members, complete_members, {}⟩

end DetectionSettings

namespace ClassifierSettings

def members : List (GroupMember ClassifierSettings) :=
  [⟨Nat, "max_features", asCount, (·.maxFeatures), fun s n => { s with maxFeatures := n }⟩,
    ⟨Nat, "epochs", asCount, (·.epochs), fun s n => { s with epochs := n }⟩,
    ⟨Float, "learning_rate", asFloat, (·.learningRate), fun s x => { s with learningRate := x }⟩,
    ⟨Float, "l2_penalty", asFloat, (·.l2Penalty), fun s x => { s with l2Penalty := x }⟩,
    ⟨Float, "threshold", asFloat, (·.threshold), fun s x => { s with threshold := x }⟩,
    ⟨String, "model_path", asPath, (·.modelPath), fun s path => { s with modelPath := path }⟩]

theorem complete_members : GroupMember.Complete members where
  get_set := by simp [members]
  frame := by simp [members]
  ext := by
    rintro ⟨⟩ ⟨⟩ h
    simpa [members] using h

def group : SettingsGroup ClassifierSettings :=
  ⟨"struct ClassifierConfig", members, complete_members, {}⟩

end ClassifierSettings

namespace StorageSettings

def members : List (GroupMember StorageSettings) :=
  [⟨Bool, "enabled", asBool, (·.enabled), fun s b => { s with enabled := b }⟩,
    ⟨String, "database_path", asPath, (·.databasePath), fun s path => { s with databasePath := path }⟩]

theorem complete_members : GroupMember.Complete members where
  get_set := by simp [members]
  frame := by simp [members]
  ext := by
    rintro ⟨⟩ ⟨⟩ h
    simpa [members] using h

def group : SettingsGroup StorageSettings := ⟨"struct StorageConfig", members, complete_members, {}⟩

end StorageSettings

namespace Settings

/-- The groups are read as settings are. -/
def members : List (GroupMember Settings) :=
  [⟨_, "detection", DetectionSettings.group.ofConfig, (·.detection),
      fun s d => { s with detection := d }⟩,
    ⟨_, "classifier", ClassifierSettings.group.ofConfig, (·.classifier),
      fun s c => { s with classifier := c }⟩,
    ⟨_, "storage", StorageSettings.group.ofConfig, (·.storage), fun s t => { s with storage := t }⟩]

theorem complete_members : GroupMember.Complete members where
  get_set := by simp [members]
  frame := by simp [members]
  ext := by
    rintro ⟨⟩ ⟨⟩ h
    simpa [members] using h

def group : SettingsGroup Settings := ⟨"struct CscoutConfig", members, complete_members, {}⟩

def names : List String := group.names

theorem names_eq : names = ["detection", "classifier", "storage"] := rfl

def ofConfig (v : ConfigValue) : Except ConfigError Settings := group.ofConfig v

end Settings

end DefectScan
