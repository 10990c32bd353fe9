import DefectScan.Grammar.Table

/-!
# The reading automaton

An item is a production read up to a dot, with the terminals that may follow it. A state is a set of
items; reading a symbol moves the dots over it. States are built when they are first reached and then
kept.

Where a state allows both to go on and to complete a production, or to complete several, precedence
decides if it can: the higher level wins, and of equal levels the side to which the completed
production leans. What precedence does not decide stays open, and both ways are followed.
-/

namespace DefectScan.Grammar

structure Item where
  production : Nat
  dot : Nat
  look : TerminalSet
deriving BEq, Hashable

structure State where
  /-- The items reached by reading, in a fixed order. -/
  kernel : List Item
  /-- The symbols whose productions may begin here, with what may follow each. -/
  closure : List (Nat × TerminalSet)
  /-- The terminals with which the text may go on. -/
  expected : TerminalSet

instance : Inhabited State := ⟨⟨[], [], 0⟩⟩

/-- What a state does with a terminal. -/
inductive Action
  /-- Complete a production. -/
  | reduce (production : Nat)
  /-- Read the terminal. -/
  | shift
  /-- Read the terminal as one that may stand anywhere. -/
  | pass
  /-- The whole text has been read. -/
  | accept
  /-- Look for a place where the terminal fits. -/
  | recover
deriving DecidableEq

def Action.isReduce : Action → Bool
  | reduce _ => true
  | _ => false

namespace Table

/-- The symbol behind the dot. -/
def nextStep (g : Table) (i : Item) : Option NumberedStep := (g.production i.production).steps[i.dot]?

/-- What may follow the symbol behind the dot. -/
def lookBehindNext (g : Table) (i : Item) : TerminalSet :=
  match (g.production i.production).steps[i.dot + 1]? with
  | some s => g.firstOf s.symbol
  | none => i.look

def closureOf (g : Table) (kernel : List Item) : List (Nat × TerminalSet) :=
  let looks : Array TerminalSet := kernel.foldl (fun acc i =>
      match g.nextStep i with
      | some s =>
        if s.symbol < g.terminalCount then acc
        else
          let behind := g.lookBehindNext i
          ((g.reach.getD s.symbol (Thunk.pure [])).get).foldl (fun acc r =>
            acc.modify r.symbol (· ||| r.follow ||| (if r.atEnd then behind else 0))) acc
      | none => acc) (Array.replicate g.symbols.size 0)
  (List.range looks.size).filterMap fun s =>
    let look := looks.getD s 0
    if look = 0 then none else some (s, look)

/-- The terminals that follow what an empty production would read. -/
def emptyLook (g : Table) (closure : List (Nat × TerminalSet)) : TerminalSet :=
  g.empties.foldl (fun acc p =>
    acc ||| (closure.lookup (g.production p).symbol).getD 0) 0

def expectedOf (g : Table) (kernel : List Item) (closure : List (Nat × TerminalSet)) :
    TerminalSet :=
  let ofKernel := kernel.foldl (fun acc i =>
      match g.nextStep i with
      | some s => if s.symbol < g.terminalCount then acc ||| .single s.symbol else acc
      | none => acc ||| i.look) (0 : TerminalSet)
  let ofClosure := closure.foldl (fun acc (s, _) => acc ||| g.opening.getD s 0) ofKernel
  ofClosure ||| g.emptyLook closure ||| .single g.comment

def stateOf (g : Table) (kernel : List Item) : State :=
  let closure := g.closureOf kernel
  { kernel, closure, expected := g.expectedOf kernel closure }

/-- The items after a symbol is read: those of the kernel first, then those that begin with it. -/
def advance (g : Table) (s : State) (x : Nat) : List Item :=
  let moved := s.kernel.filterMap fun i =>
    match g.nextStep i with
    | some step => if step.symbol = x then some { i with dot := i.dot + 1 } else none
    | none => none
  let begun := s.closure.flatMap fun (sym, look) =>
    (g.choicesOf sym).filterMap fun p =>
      match (g.production p).steps[0]? with
      | some step => if step.symbol = x then some ⟨p, 1, look⟩ else none
      | none => none
  moved ++ begun

/-- Whether the terminal can be read in the state, precedence aside. -/
def canShift (g : Table) (s : State) (t : Nat) : Bool :=
  s.kernel.any (fun i =>
    match g.nextStep i with
    | some step => step.symbol = t
    | none => false)
  || s.closure.any fun (sym, _) => TerminalSet.has (g.opening.getD sym 0) t

/-- The completions that the terminal allows, short productions first. -/
def completions (g : Table) (s : State) (t : Nat) : List Nat :=
  let full := s.kernel.filterMap fun i =>
    if i.dot = (g.production i.production).steps.size && TerminalSet.has i.look t then
      some i.production
    else none
  let empty := g.empties.filter fun p =>
    TerminalSet.has ((s.closure.lookup (g.production p).symbol).getD 0) t
  let key (p : Nat) : Nat × Nat × Int × Nat :=
    ((g.production p).steps.size, (g.production p).symbol, (g.production p).weight, p)
  (empty ++ full).mergeSort fun a b =>
    let (a₁, a₂, a₃, a₄) := key a
    let (b₁, b₂, b₃, b₄) := key b
    a₁ < b₁ || (a₁ = b₁ && (a₂ < b₂ || (a₂ = b₂ && (a₃ < b₃ || (a₃ = b₃ && a₄ ≤ b₄)))))

/-- The level of a production, that of its last step. -/
def levelOf (g : Table) (p : Nat) : Int :=
  match (g.production p).steps.back? with
  | some s => s.level
  | none => 0

def sideOf (g : Table) (p : Nat) : Option Side :=
  match (g.production p).steps.back? with
  | some s => s.side
  | none => none

/-- The completions of the highest level. -/
def bestCompletions (g : Table) (ps : List Nat) : List Nat :=
  match (ps.map g.levelOf).max? with
  | some top => ps.filter fun p => g.levelOf p = top
  | none => []

/-- The levels at which reading the terminal would go on. -/
def shiftLevels (g : Table) (s : State) (t : Nat) : List Int :=
  s.kernel.filterMap fun i =>
    match g.nextStep i, (g.production i.production).steps[i.dot - 1]? with
    | some next, some previous =>
      if 0 < i.dot && TerminalSet.has (g.firstOf next.symbol) t then some previous.level else none
    | _, _ => none

def completionAction (g : Table) (p : Nat) : Action := if p = g.start then .accept else .reduce p

/-- What a state does with a terminal: completions before reading on. -/
def actions (g : Table) (s : State) (t : Nat) : List Action :=
  if t = g.comment then [.pass]
  else
    let ps := g.bestCompletions (g.completions s t)
    let complete := ps.map g.completionAction
    if !g.canShift s t then complete
    else if ps.isEmpty then [.shift]
    else
      let top := (ps.map g.levelOf).headD 0
      let levels := g.shiftLevels s t
      let above := levels.any (top < ·)
      let below := levels.any (· < top)
      if above && !below then [.shift]
      else if below && !above then complete
      else if above && below then complete ++ [.shift]
      else if ps.all fun p => g.sideOf p = some .left then complete
      else if ps.all fun p => g.sideOf p = some .right then [.shift]
      else complete ++ [.shift]

end Table

/-- The states that have been reached so far, by number. Number 0 stands for the place where
nothing fits. -/
structure Automaton where
  table : Table
  states : Array State
  numbers : Std.HashMap (List Item) Nat
  moves : Std.HashMap (Nat × Nat) (Option Nat)

namespace Automaton

/-- The number of the state in which nothing fits. -/
def lost : Nat := 0

/-- The number of the state in which a text begins. -/
def start : Nat := 1

def initial (table : Table) : Automaton :=
  let kernel : List Item := [⟨table.start, 0, .single 0⟩]
  let lostState : State := ⟨[], [], table.skippable⟩
  { table
    states := #[lostState, table.stateOf kernel]
    numbers := (∅ : Std.HashMap (List Item) Nat).insert kernel start
    moves := ∅ }

def state (a : Automaton) (n : Nat) : State := a.states.getD n default

/-- The number of the state with a kernel. -/
def intern (a : Automaton) (kernel : List Item) : Nat × Automaton :=
  match a.numbers.get? kernel with
  | some n => (n, a)
  | none =>
    let n := a.states.size
    (n, { a with
      states := a.states.push (a.table.stateOf kernel)
      numbers := a.numbers.insert kernel n })

/-- The state after a symbol is read, if the symbol can be read. -/
def move (a : Automaton) (n x : Nat) : Option Nat × Automaton :=
  match a.moves.get? (n, x) with
  | some target => (target, a)
  | none =>
    match a.table.advance (a.state n) x with
    | [] => (none, { a with moves := a.moves.insert (n, x) none })
    | kernel =>
      let (m, a) := a.intern kernel
      (some m, { a with moves := a.moves.insert (n, x) (some m) })

/-- What a state does with a terminal; in the lost state everything is looked at for recovery. -/
def actions (a : Automaton) (n t : Nat) : List Action :=
  if n = lost then
    if t = a.table.comment then [.pass]
    else if TerminalSet.has a.table.skippable t then [.recover] else []
  else
    let s := a.state n
    if TerminalSet.has s.expected t then a.table.actions s t else []

end Automaton

end DefectScan.Grammar
