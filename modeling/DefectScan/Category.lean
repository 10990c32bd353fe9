/-!
# Categories of defects

The closed list of what can be reported, in the order of the label space, with the severity of each.
Every name is known by its spelling, and reading a name back gives the value (`ofName?_name`).
-/

namespace DefectScan

/-- A name that stands for nothing. -/
inductive NameError
  | category (name : String)
  | severity (name : String)
  | detector (name : String)
  | edit (name : String)
deriving DecidableEq, Repr

def NameError.message : NameError → String
  | category name => "Unknown bug category: " ++ name
  | severity name => "Unknown severity: " ++ name
  | detector name => "Unknown detector: " ++ name
  | edit name => "Unknown fix edit kind: " ++ name

inductive Severity
  | low
  | medium
  | high
deriving DecidableEq, Repr

namespace Severity

def all : List Severity := [low, medium, high]

def name : Severity → String
  | low => "low"
  | medium => "medium"
  | high => "high"

def ofName? (s : String) : Option Severity := all.find? (·.name = s)

def parse (s : String) : Except NameError Severity :=
  match ofName? s with
  | some x => .ok x
  | none => .error (.severity s)

end Severity

/-- A kind of defect. -/
inductive Category
  | memoryLeak
  | bufferOverflow
  | nullPointer
  | uninitializedVar
  | infiniteLoop
  | missingReturn
  | syntaxError
deriving DecidableEq, Repr

namespace Category

/-- All categories, in the order of the label space. -/
def all : List Category :=
  [memoryLeak, bufferOverflow, nullPointer, uninitializedVar, infiniteLoop, missingReturn,
    syntaxError]

def name : Category → String
  | memoryLeak => "memory_leak"
  | bufferOverflow => "buffer_overflow"
  | nullPointer => "null_pointer"
  | uninitializedVar => "uninitialized_var"
  | infiniteLoop => "infinite_loop"
  | missingReturn => "missing_return"
  | syntaxError => "syntax_error"

/-- The place of a category in the label space. -/
def index (c : Category) : Nat := all.idxOf c

/-- The severity of every finding of a category. -/
def severity : Category → Severity
  | memoryLeak | bufferOverflow | nullPointer | syntaxError => .high
  | uninitializedVar | infiniteLoop => .medium
  | missingReturn => .low

def ofName? (s : String) : Option Category := all.find? (·.name = s)

def parse (s : String) : Except NameError Category :=
  match ofName? s with
  | some x => .ok x
  | none => .error (.category s)

/-- A set of categories as a list in order. -/
def inOrder (cs : List Category) : List Category := all.filter cs.contains

theorem mem_all (c : Category) : c ∈ all := by cases c <;> decide

theorem mem_inOrder {cs : List Category} {c : Category} : c ∈ inOrder cs ↔ c ∈ cs := by
  simp [inOrder, mem_all]

theorem ofName?_name (c : Category) : ofName? c.name = some c := by cases c <;> decide

end Category

theorem Severity.ofName?_name (s : Severity) : Severity.ofName? s.name = some s := by
  cases s <;> decide

end DefectScan
