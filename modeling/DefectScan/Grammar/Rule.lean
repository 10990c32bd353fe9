import DefectScan.Grammar.Terminal

/-!
# Rules

The right-hand sides of a grammar, and the productions that they stand for.

A rule may nest sequences, choices and lists. `Rule.expand` multiplies the choices out:

    expand (seq a b) = [x ++ y | x ∈ expand a, y ∈ expand b]
    expand (alt a b) = expand a ++ expand b

Precedence is kept at each step of a production: an item takes the precedence of the step before its
dot. Where a rule with a precedence does not close the rule around it, its last step falls back to
the outer precedence, since by then the inner rule is complete.
-/

namespace DefectScan.Grammar

inductive Side
  | left
  | right
deriving DecidableEq, Repr

inductive Rule
  | blank
  | terminal (t : Terminal)
  /-- Another rule, by name. -/
  | var (name : String)
  /-- One or more items. The list itself is the hidden symbol `name`; equal lists share a name. -/
  | many (name : String) (item : Rule)
  | seq (first rest : Rule)
  | alt (first rest : Rule)
  /-- A precedence, and the side to which equal precedences lean. -/
  | prec (level : Int) (side : Option Side) (body : Rule)
  /-- A preference among readings of one text, summed up over a tree. -/
  | weight (value : Int) (body : Rule)
  /-- The kind under which the node appears. -/
  | renamed (kind : String) (body : Rule)
  /-- The role of the node in its parent. -/
  | role (label : String) (body : Rule)
deriving Inhabited

namespace Rule

instance : Coe String Rule := ⟨fun s => .terminal (.literal s)⟩

/-- All parts in order. -/
def all : List Rule → Rule
  | [] => blank
  | [r] => r
  | r :: rs => seq r (all rs)

/-- One of several, tried in order. -/
def any : List Rule → Rule
  | [] => blank
  | [r] => r
  | r :: rs => alt r (any rs)

def opt (r : Rule) : Rule := alt r blank

def lexeme (c : LexemeClass) : Rule := terminal (.lexeme c)

/-- Any number of items, none included. -/
def list (name : String) (item : Rule) : Rule := opt (many name item)

/-- One or more items with commas between them. -/
def commas (name : String) (item : Rule) : Rule := seq item (list name (all [",", item]))

def level (n : Int) (r : Rule) : Rule := prec n none r

def leaningLeft (n : Int) (r : Rule) : Rule := prec n (some .left) r

def leaningRight (n : Int) (r : Rule) : Rule := prec n (some .right) r

end Rule

/-- A symbol of a production, by its spelling in the grammar. -/
inductive Name
  | terminal (t : Terminal)
  | var (name : String)
deriving DecidableEq, Repr

/-- A place in a production. -/
structure Step where
  symbol : Name
  level : Int
  side : Option Side
  kind : Option String
  label : Option String
deriving DecidableEq, Repr

/-- One way to build a symbol. -/
structure Alternative where
  steps : List Step
  weight : Int
deriving DecidableEq, Repr

/-- What the rules around a place say about it. -/
structure Surroundings where
  level : Int := 0
  side : Option Side := none
  kind : Option String := none
  label : Option String := none

/-- The weight of a production is the one of greatest magnitude in it, the first of equals. -/
def strongest (a b : Int) : Int := if a.natAbs < b.natAbs then b else a

/-- Changes the last step. -/
def onLast (f : Step → Step) : List Step → List Step
  | [] => []
  | [s] => [f s]
  | s :: rest => s :: onLast f rest

namespace Rule

/-- The productions of a rule. `closing` says whether the rule ends the one around it. -/
def expand (env : Surroundings) (closing : Bool) : Rule → List Alternative
  | blank => [⟨[], 0⟩]
  | terminal t => [⟨[⟨.terminal t, env.level, env.side, env.kind, env.label⟩], 0⟩]
  | var n => [⟨[⟨.var n, env.level, env.side, env.kind, env.label⟩], 0⟩]
  | many n _ => [⟨[⟨.var n, env.level, env.side, env.kind, env.label⟩], 0⟩]
  | seq a b =>
    (a.expand env false).flatMap fun x =>
      (b.expand env closing).map fun y => ⟨x.steps ++ y.steps, strongest x.weight y.weight⟩
  | alt a b => a.expand env closing ++ b.expand env closing
  | prec n side body =>
    let inner := body.expand { env with level := n, side := side <|> env.side } closing
    if closing then inner
    else
      inner.map fun x =>
        { x with steps := onLast (fun s =>
            { s with
              level := env.level
              side := if side.isSome then env.side else s.side }) x.steps }
  | weight w body =>
    (body.expand env closing).map fun x => { x with weight := strongest w x.weight }
  | renamed k body => body.expand { env with kind := some k } closing
  | role l body => body.expand { env with label := some l } closing

/-- The terminals of a rule in order of appearance. -/
def terminals : Rule → List Terminal
  | blank | var _ => []
  | terminal t => [t]
  | many _ item => item.terminals
  | seq a b | alt a b => a.terminals ++ b.terminals
  | prec _ _ body | weight _ body | renamed _ body | role _ body => body.terminals

/-- The lists of a rule in order of appearance, inner ones first. -/
def lists : Rule → List (String × Rule)
  | blank | var _ | terminal _ => []
  | many n item => item.lists ++ [(n, item)]
  | seq a b | alt a b => a.lists ++ b.lists
  | prec _ _ body | weight _ body | renamed _ body | role _ body => body.lists

end Rule

/-- A named rule. A hidden rule leaves no node of its own: its children stand in its place. -/
structure Definition where
  name : String
  hidden : Bool
  body : Rule

/-- A grammar is a list of definitions, of which the first is its start. -/
abbrev Definitions := List Definition

/-- The first of the elements with each key. -/
def dedup {α β : Type} [DecidableEq β] (key : α → β) : List α → List α :=
  List.foldl (fun seen x => if seen.any (key · = key x) then seen else seen ++ [x]) []

namespace Definitions

/-- A list of items is an item, or a shorter list with an item behind it. -/
def listDefinition (name : String) (item : Rule) : Definition :=
  { name, hidden := true, body := .alt (.seq (.var name) item) item }

/-- The definitions, with those of the lists they use behind them. -/
def withLists (g : Definitions) : Definitions :=
  g ++ (dedup Prod.fst (g.flatMap fun d => d.body.lists)).map fun (n, r) => listDefinition n r

end Definitions

end DefectScan.Grammar
