import DefectScan.Grammar.Rule
import Std.Data.HashMap

/-!
# Numbered grammars

A grammar with numbers for its symbols: terminals first, in order of appearance, then the defined
symbols in order of definition. A set of terminals is a number whose bits are its members.

`Table.first` gives the terminals that a symbol may begin with. `Table.reach` gives, for a symbol
that is about to be read, all symbols that may be read first in its place, with what may follow them.
-/

namespace DefectScan.Grammar

/-- A set of terminals. -/
abbrev TerminalSet := Nat

namespace TerminalSet

def single (t : Nat) : TerminalSet := 1 <<< t

def has (s : TerminalSet) (t : Nat) : Bool := Nat.testBit s t

end TerminalSet

/-- A symbol as it appears in a tree. -/
structure SymbolInfo where
  kind : String
  visible : Bool
  named : Bool
deriving Inhabited

structure NumberedStep where
  symbol : Nat
  level : Int
  side : Option Side
  kind : Option String
  label : Option String

structure Production where
  symbol : Nat
  steps : Array NumberedStep
  weight : Int

instance : Inhabited Production := ⟨⟨0, #[], 0⟩⟩

/-- A symbol that may be read first: `follow` may come behind it, and so may whatever comes behind
the symbol in whose place it is read, if `atEnd` is true. -/
structure Reach where
  symbol : Nat
  follow : TerminalSet
  atEnd : Bool

structure Table where
  terminals : Array Terminal
  symbols : Array SymbolInfo
  productions : Array Production
  /-- The productions of each symbol. -/
  choices : Array (List Nat)
  /-- The terminals that each symbol may begin with. -/
  first : Array TerminalSet
  /-- The terminals that stand first in a production of each symbol. -/
  opening : Array TerminalSet
  reach : Array (Thunk (List Reach))
  /-- The empty productions. -/
  empties : List Nat
  /-- The keyword that each word may be. -/
  keywords : Std.HashMap String Nat
  /-- All keywords. -/
  keywordSet : TerminalSet
  identifier : Nat
  comment : Nat
  /-- The terminals that may be passed over in a place where nothing fits. -/
  skippable : TerminalSet
  /-- The production from which a whole text is read. -/
  start : Nat

namespace Table

def terminalCount (g : Table) : Nat := g.terminals.size

def production (g : Table) (p : Nat) : Production := g.productions.getD p default

def symbol (g : Table) (s : Nat) : SymbolInfo := g.symbols.getD s default

def choicesOf (g : Table) (s : Nat) : List Nat := g.choices.getD s []

def firstOf (g : Table) (s : Nat) : TerminalSet := g.first.getD s 0

end Table

/-- Applies a step until it changes nothing, or `fuel` times. -/
def untilStable {α : Type} [BEq α] (step : α → α) : Nat → α → α
  | 0, x => x
  | fuel + 1, x =>
    let y := step x
    if y == x then x else untilStable step fuel y

/-- One round: each symbol may begin as the first symbol of each of its productions may. -/
def growFirst (productions : Array Production) (first : Array TerminalSet) : Array TerminalSet :=
  productions.foldl (fun acc p =>
    match p.steps[0]? with
    | some s => acc.modify p.symbol (· ||| acc.getD s.symbol 0)
    | none => acc) first

/-- What is known of each symbol in the place of another: nothing, or what may follow it. -/
abbrev Reached := Array (Option (TerminalSet × Bool))

def Reached.add (r : Reached) (symbol : Nat) (follow : TerminalSet) (atEnd : Bool) : Reached :=
  r.modify symbol fun
    | none => some (follow, atEnd)
    | some (f, e) => some (f ||| follow, e || atEnd)

/-- One round of following first symbols. -/
def growReach (terminalCount : Nat) (productions : Array Production) (first : Array TerminalSet)
    (reached : Reached) : Reached :=
  productions.foldl (fun acc p =>
    match acc.getD p.symbol none, p.steps[0]? with
    | some (follow, atEnd), some s =>
      if s.symbol < terminalCount then acc
      else
        match p.steps[1]? with
        | some next => acc.add s.symbol (first.getD next.symbol 0) false
        | none => acc.add s.symbol follow atEnd
    | _, _ => acc) reached

def reachOf (terminalCount : Nat) (productions : Array Production) (first : Array TerminalSet)
    (symbol : Nat) : List Reach :=
  let none' : Reached := Array.replicate first.size none
  let reached := untilStable (growReach terminalCount productions first) first.size
    (none'.add symbol 0 true)
  (List.range reached.size).filterMap fun s =>
    match reached.getD s none with
    | some (follow, atEnd) => some ⟨s, follow, atEnd⟩
    | none => none

/-- Whether a word has the form of a name. -/
def isPlainWord (s : String) : Bool :=
  match s.toList with
  | [] => false
  | c :: rest => (c.isAlpha || c = '_') && rest.all fun c => c.isAlphanum || c = '_'

/-- The words that a terminal stands for, if it is a keyword. -/
def keywordsOf : Terminal → List String
  | .literal s => if isPlainWord s then [s] else []
  | .lexeme c => c.words
  | .endOfInput => []

/-- Tokens that make sense only in their own place are not passed over one by one. -/
def isSkippable : Terminal → Bool
  | .lexeme c =>
    match c with
    | .directiveText | .directiveEnd | .macroParen | .character | .stringText | .conditionEnd
    | .systemPath => false
    | _ => true
  | _ => true

def numberSteps (number : Name → Nat) (steps : List Step) : Array NumberedStep :=
  (steps.map fun s => ⟨number s.symbol, s.level, s.side, s.kind, s.label⟩).toArray

/-- The set of the terminals with a property. -/
def terminalsWith (terminals : Array Terminal) (p : Terminal → Bool) : TerminalSet :=
  (List.range terminals.size).foldl (fun acc t =>
    match terminals[t]? with
    | some x => if p x then acc ||| .single t else acc
    | none => acc) 0

/-- Numbers a grammar. -/
def Definitions.table (source : Definitions) : Table :=
  let defs := source.withLists
  -- the end comes first, the identifier second and the comment last
  let terminals : Array Terminal :=
    (dedup id ([.endOfInput, .lexeme .identifier] ++ source.flatMap (·.body.terminals)
      ++ [.lexeme .comment])).toArray
  let n := terminals.size
  let terminalNumbers : List (Terminal × Nat) := terminals.toList.zipIdx
  let varNumbers : Std.HashMap String Nat :=
    Std.HashMap.ofList (defs.zipIdx.map fun (d, i) => (d.name, n + i))
  let number : Name → Nat
    | .terminal t => (terminalNumbers.lookup t).getD 0
    | .var v => varNumbers.getD v 0
  let expanded : List Production := defs.zipIdx.flatMap fun (d, i) =>
    (dedup id (d.body.expand {} true)).map fun a =>
      ⟨n + i, numberSteps number a.steps, a.weight⟩
  let top : Production := ⟨n + defs.length, #[⟨n, 0, none, none, none⟩], 0⟩
  let productions : Array Production := (expanded ++ [top]).toArray
  let count := n + defs.length + 1
  let choices := productions.toList.zipIdx.foldl (fun acc (p, i) => acc.modify p.symbol (· ++ [i]))
    (Array.replicate count ([] : List Nat))
  let first := untilStable (growFirst productions) count
    ((Array.range count).map fun s => if s < n then TerminalSet.single s else 0)
  let opening := productions.foldl (fun acc p =>
      match p.steps[0]? with
      | some s => if s.symbol < n then acc.modify p.symbol (· ||| .single s.symbol) else acc
      | none => acc) (Array.replicate count 0)
  let keywordPairs := terminalNumbers.flatMap fun (t, i) => (keywordsOf t).map fun w => (w, i)
  { terminals
    symbols := terminals.map (fun t => ⟨t.kind, t.visible, t.named⟩)
      ++ (defs.map fun d => ⟨d.name, !d.hidden, true⟩).toArray ++ #[⟨"start", false, false⟩]
    productions, choices, first, opening
    reach := (Array.range count).map fun s => Thunk.mk fun _ => reachOf n productions first s
    empties := productions.toList.zipIdx.filterMap fun (p, i) =>
      if p.steps.isEmpty then some i else none
    keywords := Std.HashMap.ofList keywordPairs
    keywordSet := keywordPairs.foldl (fun acc (_, i) => acc ||| .single i) 0
    identifier := 1
    comment := n - 1
    skippable := terminalsWith terminals isSkippable
    start := productions.size - 1 }

end DefectScan.Grammar
