import DefectScan.Finding
import DefectScan.Text.Blank
import DefectScan.Text.Lines
import DefectScan.Tree

/-!
# The structural detector

A text that does not fit the grammar gives one finding, a syntax error, and nothing else; so does a
statement outside of all functions. In other texts every function that returns a value is looked at:
one of the statements directly in its body has to be a return.
-/

namespace DefectScan.Structural

open Parse

/-- Why a text is no C program. -/
inductive Fault
  | missing (kind : String) (place : Position)
  | unexpected (snippet : String) (place : Position)
  | looseStatement (place : Position)

namespace Fault

def place : Fault → Position
  | missing _ p | unexpected _ p | looseStatement p => p

def reason : Fault → String
  | missing kind _ => "missing `" ++ kind ++ "`"
  | unexpected snippet _ => "unexpected `" ++ snippet ++ "`"
  | looseStatement _ => "statement outside of a function"

def description (f : Fault) : String :=
  "Syntax error: " ++ f.reason ++ " at line " ++ toString (f.place.row + 1) ++ ", column "
    ++ toString (f.place.column + 1)

end Fault

/-- The characters that a node stands over. -/
def textOf (text : List Char) (n : Node) : List Char := slice text n.start.byte n.stop.byte

/-- How many characters of a faulty text are quoted. -/
def snippetLength : Nat := 40

/-- The first line of a text, cut if it is long. -/
def snippet (text : List Char) : String :=
  let line := Text.trim ((Text.Lines.seen text).headD [])
  if snippetLength < line.length then String.ofList (line.take snippetLength) ++ "..."
  else String.ofList line

mutual
/-- The first node, in the order of the text, that is an error or missing. A node that is not marked
as having an error is not gone into. -/
def firstBad : Node → Option Node
  | ⟨kind, named, role, hasError, labels, start, stop, children⟩ =>
    match role with
    | .plain => if hasError then firstBadOf children else none
    | _ => some ⟨kind, named, role, hasError, labels, start, stop, children⟩

def firstBadOf : List Node → Option Node
  | [] => none
  | n :: ns =>
    match firstBad n with
    | some bad => some bad
    | none => firstBadOf ns
end

def isStatement (n : Node) : Bool := n.kind.endsWith "_statement"

/-- A statement that is only a semicolon. -/
def isEmptyStatement (n : Node) : Bool :=
  n.kind = "expression_statement" && n.namedChildren.isEmpty

/-- The first reason why a tree is not that of a C program. -/
def fault? (text : List Char) (root : Node) : Option Fault :=
  match if root.hasError then firstBad root else none with
  | some bad =>
    if bad.role = .missing then some (.missing bad.kind bad.start)
    else some (.unexpected (snippet (textOf text bad)) bad.start)
  | none =>
    match root.namedChildren.find? fun n => isStatement n && !isEmptyStatement n with
    | some n => some (.looseStatement n.start)
    | none => none

/-! ## Functions -/

/-- A function of type `void` returns nothing, one of type `void *` returns a pointer. -/
def returnsVoid (text : List Char) (function : Node) : Bool :=
  ((function.child? "type").map fun t => decide (Text.trim (textOf text t) = "void".toList)).getD
    false
  && ((function.child? "declarator").map fun d => decide (d.kind = "function_declarator")).getD
    false

/-- Whether one of the statements directly in a body is a return. -/
def hasReturn (body : Node) : Bool := body.namedChildren.any (·.kind = "return_statement")

mutual
/-- The height of a tree. -/
def height : Node → Nat
  | ⟨_, _, _, _, _, _, _, children⟩ => heightOf children + 1

def heightOf : List Node → Nat
  | [] => 0
  | n :: ns => max (height n) (heightOf ns)
end

/-- The name that a declarator declares: declarators are followed inwards. -/
def declaredName (text : List Char) : Nat → Option Node → String
  | 0, _ => "<anonymous>"
  | _, none => "<anonymous>"
  | fuel + 1, some n =>
    if n.kind = "identifier" then String.ofList (textOf text n)
    else declaredName text fuel ((n.child? "declarator").or n.namedChildren.head?)

def functionName (text : List Char) (function : Node) : String :=
  declaredName text (height function) (function.child? "declarator")

/-- The finding on a function, if it has a body without a return. -/
def checkFunction (text : List Char) (function : Node) : Option Finding :=
  if returnsVoid text function then none
  else
    match function.child? "body" with
    | none => none
    | some body =>
      if hasReturn body then none
      else
        some (.atLine .missingReturn (function.start.row + 1)
          ("Function " ++ functionName text function ++ " might not return a value") .structural)

theorem checkFunction_eq_some_iff {text : List Char} {function : Node} {f : Finding} :
    checkFunction text function = some f ↔ returnsVoid text function = false ∧
      (∃ body, function.child? "body" = some body ∧ hasReturn body = false) ∧
      f = .atLine .missingReturn (function.start.row + 1)
        ("Function " ++ functionName text function ++ " might not return a value") .structural := by
  unfold checkFunction
  cases returnsVoid text function with
  | true => simp
  | false =>
    cases function.child? "body" with
    | none => simp
    | some body =>
      cases hreturn : hasReturn body with
      | true => simp [hreturn]
      | false => simpa [hreturn] using eq_comm

/-! ## The walk -/

mutual
/-- The number of nodes of a tree. -/
def size : Node → Nat
  | ⟨_, _, _, _, _, _, _, children⟩ => sizes children + 1

def sizes : List Node → Nat
  | [] => 0
  | n :: ns => size n + sizes ns
end

theorem size_eq (n : Node) : size n = sizes n.children + 1 := by
  cases n
  rw [size]

theorem sizes_append (ns ms : List Node) : sizes (ns ++ ms) = sizes ns + sizes ms := by
  induction ns with
  | nil => simp [sizes]
  | cons n ns ih => rw [List.cons_append, sizes, sizes, ih, Nat.add_assoc]

theorem sizes_reverse (ns : List Node) : sizes ns.reverse = sizes ns := by
  induction ns with
  | nil => rfl
  | cons n ns ih =>
    rw [List.reverse_cons, sizes_append, ih, sizes, sizes, sizes, Nat.add_zero, Nat.add_comm]

theorem sizes_filter_le (p : Node → Bool) (ns : List Node) : sizes (ns.filter p) ≤ sizes ns := by
  induction ns with
  | nil => exact Nat.le_refl _
  | cons n ns ih =>
    rw [List.filter_cons]
    split
    · exact Nat.add_le_add_left ih _
    · exact Nat.le_trans ih (Nat.le_add_left _ _)

theorem toList_of_back? {stack : Array Node} {n : Node} (h : stack.back? = some n) :
    stack.toList = stack.pop.toList ++ [n] := by
  obtain ⟨rest, rfl⟩ := Array.back?_eq_some_iff.mp h
  simp

theorem sizes_pop {stack : Array Node} {n : Node} (h : stack.back? = some n) :
    sizes stack.toList = sizes stack.pop.toList + size n := by
  rw [toList_of_back? h, sizes_append, sizes, sizes, Nat.add_zero]

theorem sizes_pop_lt {stack : Array Node} {n : Node} (h : stack.back? = some n) :
    sizes stack.pop.toList < sizes stack.toList := by
  rw [sizes_pop h, size_eq]
  omega

theorem sizes_children_lt {stack : Array Node} {n : Node} (h : stack.back? = some n) :
    sizes (stack.pop ++ n.namedChildren.reverse).toList < sizes stack.toList := by
  have hchildren := sizes_filter_le (·.named) n.children
  rw [sizes_pop h, size_eq, Array.toList_appendList, sizes_append, sizes_reverse, Node.namedChildren]
  omega

/-- The walk through the nodes on a stack. The last node is taken off: a function definition is
checked, and of another node the named children are put on, the first of them last. -/
def walk (text : List Char) (stack : Array Node) (findings : Array Finding) : Array Finding :=
  match _ : stack.back? with
  | none => findings
  | some n =>
    if n.kind = "function_definition" then
      match checkFunction text n with
      | some f => walk text stack.pop (findings.push f)
      | none => walk text stack.pop findings
    else walk text (stack.pop ++ n.namedChildren.reverse) findings
termination_by sizes stack.toList
decreasing_by
  · exact sizes_pop_lt ‹_›
  · exact sizes_pop_lt ‹_›
  · exact sizes_children_lt ‹_›

/-- The findings on a tree of a text. -/
def scanTree (text : List Char) (root : Node) : List Finding :=
  match fault? text root with
  | some f => [.atLine .syntaxError 0 f.description .structural]
  | none => (walk text #[root] #[]).toList

/-- The findings on a text, or nothing where it has no tree. -/
def scan (text : String) : Option (List Finding) :=
  (C.tree? text.toList).map (scanTree text.toList)

end DefectScan.Structural
