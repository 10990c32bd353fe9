import DefectScan.Grammar.C
import DefectScan.Parse.Reading

/-!
# Trees of C

The tree of a C text as far as it is shown: hidden symbols leave their children in their place. A
node may carry labels that say what it is to its parent, such as its type or its body.

A text that does not fit the grammar still has a tree. In it an error node stands over the text that
was passed over, and a missing node where a token was added.
-/

namespace DefectScan

open Parse Grammar

inductive NodeRole
  | plain
  | error
  | missing
deriving DecidableEq, Repr

structure Node where
  kind : String
  /-- Whether the node stands for more than a mark or a keyword. -/
  named : Bool
  role : NodeRole
  /-- Whether reading what the node stands over has cost anything: errors and missing tokens do. -/
  hasError : Bool
  labels : List String
  start : Position
  stop : Position
  children : List Node

instance : Inhabited Node := ⟨⟨"", false, .plain, false, [], .start, .start, []⟩⟩

namespace Node

def namedChildren (n : Node) : List Node := n.children.filter (·.named)

/-- The first child with a label. -/
def child? (n : Node) (label : String) : Option Node := n.children.find? (·.labels.contains label)

/-- Whether a kind that a rule gives to a symbol is a name. -/
def isName (kind : String) : Bool := !kind.startsWith "#"

def addLabel (label : Option String) (n : Node) : Node :=
  match label with
  | some l => { n with labels := l :: n.labels }
  | none => n

/-- The label of a hidden symbol goes to the first of its children. -/
def labelFirst (label : Option String) : List Node → List Node
  | [] => []
  | n :: ns => n.addLabel label :: ns

def roleOf (t : Subtree) : NodeRole :=
  if t.label = .error then .error else if t.missing then .missing else .plain

def kindOf (g : Table) : Label → String
  | .symbol s => (g.symbol s).kind
  | .error => "ERROR"
  | .skipped => ""

def isNamed (g : Table) : Label → Bool
  | .symbol s => (g.symbol s).named
  | .error => true
  | .skipped => false

mutual
/-- The nodes that a subtree is shown as: itself, or its children. -/
def ofSubtree (g : Table) (step : Option NumberedStep) : Subtree → List Node
  | ⟨label, children, before, start, stop, cost, weight, descendants, shown, visible, extra,
      missing, production⟩ =>
    let t : Subtree := ⟨label, [], before, start, stop, cost, weight, descendants, shown, visible,
      extra, missing, production⟩
    let below := ofSubtrees g (production.map fun p => (g.production p).steps.toList) children
    let given := step.bind (·.kind)
    let nodeLabel := step.bind (·.label)
    if visible || given.isSome then
      [addLabel nodeLabel
        { kind := given.getD (kindOf g label)
          named := (given.map isName).getD (isNamed g label)
          role := roleOf t, hasError := 0 < cost, labels := [], start, stop, children := below }]
    else labelFirst nodeLabel below

/-- The nodes of the children of a production; children that may stand anywhere take no step. -/
def ofSubtrees (g : Table) (steps : Option (List NumberedStep)) : List Subtree → List Node
  | [] => []
  | t :: ts =>
    if t.extra then ofSubtree g none t ++ ofSubtrees g steps ts
    else
      match steps with
      | some (s :: rest) => ofSubtree g (some s) t ++ ofSubtrees g (some rest) ts
      | _ => ofSubtree g none t ++ ofSubtrees g steps ts
end

end Node

/-- The automaton that reads C. -/
def C.automaton : Automaton := .initial Grammar.C.definitions.table

/-- The tree of a C text. -/
def C.tree? (text : List Char) : Option Node :=
  match readText C.automaton text with
  | some t => (Node.ofSubtree C.automaton.table none t).head?
  | none => none

end DefectScan
