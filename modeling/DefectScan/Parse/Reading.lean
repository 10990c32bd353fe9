import DefectScan.Parse.Lexer
import DefectScan.Parse.Stack

/-!
# Reading a text

A text is read token by token, along all readings that the grammar leaves open. A reading that meets
a token which does not fit is paused; if no better one is left, it is repaired, by adding a token that
is missing, by going back to a state in which the token fits, or by passing over the token. Every
repair has a cost, and the cheapest complete reading is the result.
-/

namespace DefectScan.Parse

open DefectScan.Grammar

/-- A text with what remains of it behind each byte. -/
structure Source where
  text : List Char
  tails : Array (List Char)

namespace Source

def ofText (text : List Char) : Source :=
  { text, tails := (go text #[]).push [] }
where
  go : List Char → Array (List Char) → Array (List Char)
  | [], acc => acc
  | c :: rest, acc => go rest (acc ++ Array.replicate c.utf8Size (c :: rest))

def cursor (s : Source) (p : Position) : Cursor := ⟨p, s.tails.getD p.byte []⟩

end Source

structure Reading where
  automaton : Automaton
  source : Source
  stack : Stack
  /-- The best complete reading so far. -/
  finished : Option Subtree
  /-- The number of complete readings so far. -/
  accepted : Nat

/-- The most readings that are followed from one token to the next. -/
def maxVersions : Nat := 6

/-- How many readings may be added within one step. -/
def maxOverflow : Nat := 4

abbrev ReadingM := StateM Reading

namespace Reading

def modifyStack (f : Stack → Stack) : ReadingM Unit := modify fun r => { r with stack := f r.stack }

def getStack : ReadingM Stack := return (← get).stack

def getTable : ReadingM Table := return (← get).automaton.table

/-- What a state does with a tree of a label. -/
def actionsOn (state : Nat) (label : Label) : ReadingM (List Action) := do
  match label with
  | .symbol t => return (← get).automaton.actions state t
  | _ => return []

def move (state symbol : Nat) : ReadingM (Option Nat) := do
  let r ← get
  let (target, automaton) := r.automaton.move state symbol
  set { r with automaton }
  return target

/-- The state behind a symbol, if it can be read. -/
def stateAfter (state symbol : Nat) : ReadingM (Option Nat) := do
  if state = Automaton.lost then return none
  if (← getTable).terminalCount ≤ symbol then move state symbol
  else
    match ((← get).automaton.actions state symbol).getLast? with
    | some .shift => move state symbol
    | some .pass => return some state
    | _ => return none

/-! ## Comparing readings -/

/-- The count at the last error is never above the count of nodes. -/
def settle (v : Nat) : ReadingM Unit :=
  modifyStack fun s =>
    let count := (s.top v).count
    s.modifyHead v fun h => { h with countAtError := min h.countAtError count }

def standing (v : Nat) : ReadingM Stack.Standing := do
  settle v
  return (← getStack).standing v

/-- Whether a reading is at least as good as `v` would be at a cost. -/
def betterAmong (v : Nat) (own : Stack.Standing) : List Nat → ReadingM Bool
  | [] => return false
  | i :: rest => do
    let s ← getStack
    if i = v || !(s.head i).status.isActive || (s.place i).byte < (s.place v).byte then
      betterAmong v own rest
    else
      match own.compare (← standing i) with
      | .takeRight => return true
      | .preferRight =>
        if (← getStack).canMerge i v then return true else betterAmong v own rest
      | _ => betterAmong v own rest

/-- Whether there is no point in going on with a reading at a cost. -/
def betterExists (v cost : Nat) : ReadingM Bool := do
  let r ← get
  if (r.finished.map fun t => decide (t.cost ≤ cost)).getD false then return true
  settle v
  let s ← getStack
  betterAmong v ⟨cost, s.progress v, (s.top v).weight, false⟩ (List.range s.size)

/-! ## Completing productions -/

/-- The best tree over the ways back that lead to one node, with the trees that may stand anywhere
behind it. -/
def bestBranch (g : Table) (p : Nat) (place : Position) :
    List (List Subtree) → Option (Subtree × List Subtree) → Option (Subtree × List Subtree)
  | [], best => best
  | trees :: rest, best =>
    let (children, extras) := Subtree.splitExtras trees
    let new := Subtree.branch g (.symbol (g.production p).symbol) children (some p) place
    match best with
    | none => bestBranch g p place rest (some (new, extras))
    | some (old, oldExtras) =>
      bestBranch g p place rest
        (if old.prefersSecond new then some (new, extras) else some (old, oldExtras))

/-- Completes a production on one slice; returns whether the head of the slice is gone. -/
def reduceSlice (v p halted removed : Nat) (slice : Stack.Slice) : ReadingM Bool := do
  -- the heads that have been removed stood before this one
  let w := slice.head - removed
  if maxVersions + maxOverflow + halted < w then
    modifyStack (·.remove w)
    return true
  let g ← getTable
  let s ← getStack
  match bestBranch g p (s.place w) slice.trees none with
  | none => return false
  | some (tree, extras) =>
    let production := g.production p
    let target := (← move (s.state w) production.symbol).getD Automaton.lost
    let tree := { tree with weight := tree.weight + production.weight }
    modifyStack fun s => (tree :: extras).foldl (fun s t => s.push w (some t) target) s
    match (← getStack).mergeBelow w 0 w (some v) with
    | some s =>
      modifyStack fun _ => s
      return true
    | none => return false

def reduceSlices (v p halted : Nat) : List Stack.Slice → Nat → ReadingM Unit
  | [], _ => return ()
  | slice :: rest, removed => do
    let gone ← reduceSlice v p halted removed slice
    reduceSlices v p halted rest (if gone then removed + 1 else removed)

/-- Completes a production in a reading. The old head stays; the first new one is returned. -/
def reduce (v p : Nat) : ReadingM (Option Nat) := do
  let g ← getTable
  let before := (← getStack).size
  let (slices, s) := (← getStack).pop v (g.production p).steps.size
  modifyStack fun _ => s
  let halted := s.heads.countP (·.status.isHalted)
  reduceSlices v p halted slices 0
  return if before < (← getStack).size then some before else none

/-- The productions of some actions that complete something, one for each symbol and length. -/
def addReductions (g : Table) (found : List Nat) : List Action → List Nat
  | [] => found
  | .reduce p :: rest =>
    let production := g.production p
    let known := found.any fun q =>
      (g.production q).symbol = production.symbol
        && (g.production q).steps.size = production.steps.size
    addReductions g (if production.steps.isEmpty || known then found else found ++ [p]) rest
  | _ :: rest => addReductions g found rest

/-- Whether some actions read the next token. -/
def readsOn (actions : List Action) : Bool :=
  actions.any fun
    | .shift | .recover => true
    | _ => false

/-- Completes all that can be completed before a terminal, or before any. Returns whether some
reading can then go on. -/
def reduceAll (first : Nat) (look : Option Nat) : ReadingM Bool := do
  let before := (← getStack).size
  go before 4096 first 0 false
where
  reduceEach (v : Nat) : List Nat → Option Nat → ReadingM (Option Nat)
  | [], last => return last
  | p :: ps, _ => do reduceEach v ps (← reduce v p)
  go (before : Nat) : Nat → Nat → Nat → Bool → ReadingM Bool
  | 0, _, _, can => return can
  | fuel + 1, v, round, can => do
    let s ← getStack
    if s.size ≤ v then return can
    match s.mergeBelow v before v none with
    | some s =>
      modifyStack fun _ => s
      go before fuel v (round + 1) can
    | none =>
      let r ← get
      let g := r.automaton.table
      let state := s.state v
      let symbols := match look with
        | some t => [t]
        | none => (List.range g.terminalCount).drop 1
      let actions := symbols.flatMap (r.automaton.actions state)
      let last ← reduceEach v (addReductions g [] actions) none
      let next := if v = first then s.size else v + 1
      if readsOn actions then go before fuel next (round + 1) true
      else
        match last with
        | some w =>
          if round < maxVersions then
            modifyStack (·.replace w v)
            go before fuel v (round + 1) can
          else
            if look.isSome then modifyStack (·.remove v)
            go before fuel next (round + 1) can
        | none =>
          if look.isSome then modifyStack (·.remove v)
          go before fuel next (round + 1) can

/-! ## Complete readings -/

/-- The tree of a whole text: the last subtree that is not extra takes in what stands around it. -/
def rootOf (g : Table) (trees : List Subtree) : Option Subtree :=
  let (inner, extras) := Subtree.splitExtras trees
  match inner.getLast? with
  | none => none
  | some t =>
    let root := Subtree.branch g t.label (inner.dropLast ++ t.children ++ extras) none t.start
    some { root with weight := t.weight }

def finish (root : Subtree) : ReadingM Unit :=
  modify fun r =>
    let better := match r.finished with
      | none => true
      | some old => old.prefersSecond root
    { r with accepted := r.accepted + 1, finished := if better then some root else r.finished }

/-- Ends a reading at the end of the text. -/
def accept (v : Nat) (look : Subtree) : ReadingM Unit := do
  modifyStack (·.push v (some look) Automaton.start)
  let (slices, s) := (← getStack).popAll v
  modifyStack fun _ => s
  let g ← getTable
  for slice in slices do
    for trees in slice.trees do
      match rootOf g trees with
      | some root => finish root
      | none => pure ()
  match slices.head? with
  | some slice => modifyStack (·.remove slice.head)
  | none => pure ()
  modifyStack (·.halt v)

/-! ## Repairs -/

/-- Takes an error off the top of a reading and returns what is in it. -/
def takeError (v : Nat) : ReadingM (List Subtree) := do
  let s ← getStack
  if (s.top v).links.any fun l => (l.tree.map fun t => decide (t.label = .error)).getD false then
    let (slices, s) := s.popError v
    match slices with
    | slice :: _ =>
      modifyStack fun _ => s.replace slice.head v
      match slice.trees with
      | (t :: _) :: _ => return t.children
      | _ => return []
    | [] =>
      modifyStack fun _ => s
      return []
  else return []

/-- Goes back to a state and takes all that was read since for an error. -/
def goBackOn (goal : Nat) : List Stack.Slice → Bool → ReadingM Bool
  | [], done => return done
  | slice :: rest, done => do
    let w := slice.head
    if (← getStack).state w ≠ goal then
      modifyStack (·.halt w)
      goBackOn goal rest done
    else
      let inner ← takeError w
      let g ← getTable
      let (trees, extras) := Subtree.splitExtras (inner ++ slice.trees.headD [])
      let place := (← getStack).place w
      let error := { Subtree.branch g .error trees none place with extra := true }
      let pushed := if trees.isEmpty then extras else error :: extras
      modifyStack fun s => pushed.foldl (fun s t => s.push w (some t) goal) s
      goBackOn goal rest true

def goBack (v depth goal : Nat) : ReadingM Bool := do
  let (slices, s) := (← getStack).pop v depth
  modifyStack fun _ => s
  goBackOn goal slices false

/-- Tries the landmarks, nearest first, for one at which the token fits. -/
def tryLandmarks (v cost before : Nat) (progressed : Bool) (look : Subtree) :
    List Landmark → ReadingM Bool
  | [] => return false
  | l :: rest => do
    let s ← getStack
    let place := s.place v
    let met := (s.heads.take before).any fun h =>
      (s.node h.node).state = l.state && (s.node h.node).place = place
    if l.state = Automaton.lost || l.place = place || met then
      tryLandmarks v cost before progressed look rest
    else
      let newCost := cost + l.depth * skippedTreeCost + spanCost l.place place
      if ← betterExists v newCost then return false
      let depth := if progressed then l.depth + 1 else l.depth
      if (← actionsOn l.state look.label).isEmpty then
        tryLandmarks v cost before progressed look rest
      else if ← goBack v depth l.state then return true
      else tryLandmarks v cost before progressed look rest

/-- Passes over a token. -/
def skipToken (v : Nat) (progressed : Bool) (look : Subtree) : ReadingM Unit := do
  let g ← getTable
  let look := if look.label = .symbol g.comment then { look with extra := true } else look
  let step := Subtree.branch g .skipped [look] none look.start
  if progressed then
    let (slices, s) := (← getStack).pop v 1
    match slices with
    | slice :: _ =>
      let s := { s with heads := s.heads.take (slice.head + 1) }
      modifyStack fun _ => s.replace slice.head v
      let step := Subtree.branch g .skipped (slice.trees.headD [] ++ [step]) none look.start
      modifyStack (·.push v (some step) Automaton.lost)
    | [] =>
      modifyStack fun _ => s.push v (some step) Automaton.lost
  else modifyStack (·.push v (some step) Automaton.lost)

/-- Goes on from an error: back to a state in which the token fits, and also over the token. -/
def recover (v : Nat) (look : Subtree) : ReadingM Unit := do
  settle v
  let s ← getStack
  let before := s.size
  let progressed := 0 < s.progress v
  let cost := s.cost v
  let wentBack ←
    if look.label = .error then pure false
    else tryLandmarks v cost before progressed look (s.head v).landmarks
  -- the new readings that have come to nothing are dropped
  modifyStack fun s =>
    { s with heads := s.heads.take before ++ (s.heads.drop before).filter (·.status.isActive) }
  if wentBack && maxVersions < (← getStack).size then modifyStack (·.halt v)
  else if look.label = .symbol 0 then
    let error := Subtree.branch (← getTable) .error [] none ((← getStack).place v)
    modifyStack (·.push v (some error) Automaton.start)
    accept v look
  else if ← betterExists v (cost + skippedTreeCost + spanCost look.before look.stop) then
    modifyStack (·.halt v)
  else skipToken v progressed look

/-- Tries each terminal as one that is missing before a token. -/
def tryMissing (w : Nat) (place : Position) (look : Subtree) : List Nat → ReadingM Bool
  | [] => return false
  | m :: rest => do
    let state := (← getStack).state w
    match ← stateAfter state m with
    | none => tryMissing w place look rest
    | some target =>
      let fits := ((← actionsOn target look.label).head?.map (·.isReduce)).getD false
      if target = state || !fits then tryMissing w place look rest
      else
        let (copy, s) := (← getStack).duplicate w
        let leaf := Subtree.missingLeaf (← getTable) m place
        modifyStack fun _ => s.push copy (some leaf) target
        let next := match look.label with
          | .symbol 0 => none
          | .symbol t => some t
          | _ => none
        if ← reduceAll copy next then return true
        else tryMissing w place look rest

/-- Repairs by missing tokens what can be repaired so, and marks all readings as lost. -/
def loseEach (place : Position) (look : Subtree) : List Nat → Bool → ReadingM Unit
  | [], _ => return ()
  | w :: rest, repaired => do
    let g ← getTable
    let repaired ←
      if repaired then pure true
      else tryMissing w place look ((List.range g.terminalCount).drop 1)
    modifyStack (·.push w none Automaton.lost)
    loseEach place look rest repaired

/-- Repairs a reading in which a token does not fit. -/
def handleError (v : Nat) (look : Subtree) : ReadingM Unit := do
  let before := (← getStack).size
  let _ ← reduceAll v none
  let s ← getStack
  let added := (List.range s.size).drop before
  loseEach (s.place v) look (v :: added) false
  -- each merging moves the next of the new readings to the same number
  for _ in added do
    modifyStack fun s => (s.merge v before).getD s
  modifyStack fun s => s.modifyHead v fun h => { h with landmarks := s.survey v }
  recover v look

/-! ## Keeping the best readings -/

/-- Compares reading `i`, whose standing is known, with those before it; returns the place from
which to go on. -/
def condenseOne (own : Stack.Standing) : Nat → Nat → Nat → ReadingM Nat
  | 0, i, _ => return i
  | fuel + 1, i, j => do
    if i ≤ j then return i
    match (← standing j).compare own with
    | .takeLeft =>
      modifyStack (·.remove i)
      return i - 1
    | .preferLeft | .either =>
      match (← getStack).merge j i with
      | some s =>
        modifyStack fun _ => s
        return i - 1
      | none => condenseOne own fuel i (j + 1)
    | .preferRight =>
      match (← getStack).merge j i with
      | some s =>
        modifyStack fun _ => s
        return i - 1
      | none =>
        modifyStack fun s => { s with heads := (s.heads.set i (s.head j)).set j (s.head i) }
        condenseOne own fuel i (j + 1)
    | .takeRight =>
      modifyStack (·.remove j)
      condenseOne own fuel (i - 1) j

/-- Compares all readings; returns the least cost of one that is not in error. -/
def condenseAll : Nat → Nat → Option Nat → ReadingM (Option Nat)
  | 0, _, least => return least
  | fuel + 1, i, least => do
    let s ← getStack
    if s.size ≤ i then return least
    if (s.head i).status.isHalted then
      modifyStack (·.remove i)
      condenseAll fuel i least
    else
      let own ← standing i
      let least := if own.inError then least
        else some (match least with | some n => min n own.cost | none => own.cost)
      let i ← condenseOne own (s.size + 1) i 0
      condenseAll fuel (i + 1) least

/-- Resumes the best paused reading if nothing better is going on, and drops the others. -/
def resume : Nat → Nat → Nat → Bool → Option Nat → ReadingM (Option Nat)
  | 0, _, _, _, least => return least
  | fuel + 1, i, count, running, least => do
    if count ≤ i then return least
    let s ← getStack
    match (s.head i).status with
    | .paused look =>
      if !running && (← get).accepted < maxVersions then
        let cost := s.cost i
        modifyStack fun s => s.modifyHead i fun h => { h with status := .active }
        handleError i look
        resume fuel (i + 1) count true (some cost)
      else
        modifyStack (·.remove i)
        resume fuel i (count - 1) running least
    | _ => resume fuel (i + 1) count true least

/-- Keeps the readings that are worth following, best first. -/
def condense : ReadingM (Option Nat) := do
  let size := (← getStack).size
  let least ← condenseAll (size + 1) 0 none
  modifyStack fun s => { s with heads := s.heads.take maxVersions }
  let count := (← getStack).size
  resume (count + 1) 0 count false least

/-! ## Going on -/

/-- Carries out the actions on a token in turn. Returns whether the token is dealt with, and else
the last new reading. -/
def perform (v : Nat) (look : Subtree) : List Action → Option Nat → ReadingM (Bool × Option Nat)
  | [], last => return (false, last)
  | a :: rest, last => do
    let state := (← getStack).state v
    match a with
    | .shift =>
      let target := (← move state ((match look.label with | .symbol t => t | _ => 0))).getD
        Automaton.lost
      modifyStack (·.push v (some look) target)
      return (true, last)
    | .pass =>
      modifyStack (·.push v (some { look with extra := true }) state)
      return (true, last)
    | .reduce p =>
      let new ← reduce v p
      perform v look rest (new.orElse fun _ => last)
    | .accept =>
      accept v look
      return (true, last)
    | .recover =>
      recover v look
      return (true, last)

/-- Deals with a token in a reading. -/
def process (v : Nat) (isKeyword : Bool) : Nat → Subtree → ReadingM Unit
  | 0, _ => modifyStack (·.halt v)
  | fuel + 1, look => do
    let g ← getTable
    let state := (← getStack).state v
    let (done, last) ← perform v look (← actionsOn state look.label) none
    if done then return ()
    match last with
    | some w =>
      modifyStack (·.replace w v)
      process v isKeyword fuel look
    | none =>
      let asName := { look with
        label := .symbol g.identifier, visible := Label.visible g (.symbol g.identifier) }
      -- a keyword that does not fit may still be a name
      if isKeyword && look.label ≠ asName.label
          && !(← actionsOn state asName.label).isEmpty then
        process v isKeyword fuel asName
      else if state = Automaton.lost then recover v look
      else modifyStack fun s => s.modifyHead v fun h => { h with status := .paused look }

/-- Reads the next token in a reading. -/
def advance (fuel v : Nat) : ReadingM Unit := do
  let r ← get
  let g := r.automaton.table
  let place := r.stack.place v
  let expected := (r.automaton.state (r.stack.state v)).expected
  let token := nextToken g expected (r.source.cursor place)
  let label := match token.terminal with
    | some t => .symbol t
    | none => .error
  let look := Subtree.leaf g label place token.start.position token.stop.position
  process v token.isKeyword fuel look

/-- Advances a reading until it is ahead of the others or at a stop. -/
def advanceHead (fuel v : Nat) : Nat → Nat → ReadingM Nat
  | 0, last => return last
  | n + 1, last => do
    if (← getStack).heads.length ≤ v then return last
    if !((← getStack).head v).status.isActive then return last
    advance fuel v
    let byte := ((← getStack).place v).byte
    if last < byte || (0 < v && byte = last) then return byte
    else advanceHead fuel v n last

def advanceHeads (fuel : Nat) : Nat → Nat → Nat → ReadingM Nat
  | 0, _, last => return last
  | n + 1, v, last => do
    if (← getStack).size ≤ v then return last
    let last ← advanceHead fuel v fuel last
    advanceHeads fuel n (v + 1) last

/-- Reads on until the best reading is complete. -/
def run (fuel : Nat) : Nat → Nat → ReadingM Unit
  | 0, _ => return ()
  | n + 1, last => do
    let last ← advanceHeads fuel fuel 0 last
    let least ← condense
    let r ← get
    let done := match r.finished, least with
      | some t, some n => t.cost < n
      | some _, none => true
      | none, _ => false
    if done || r.stack.heads.isEmpty then return ()
    else run fuel n last

end Reading

/-- How many steps a reading of a text may take. -/
def stepBound (text : List Char) : Nat := 4096 + 256 * text.length

/-- The best reading of a text. -/
def readText (automaton : Automaton) (text : List Char) : Option Subtree :=
  let fuel := stepBound text
  let start : Reading :=
    { automaton, source := .ofText text, stack := .initial, finished := none, accepted := 0 }
  ((Reading.run fuel fuel 0).run start).2.finished

end DefectScan.Parse
