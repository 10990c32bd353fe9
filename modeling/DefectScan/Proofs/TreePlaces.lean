import DefectScan.Proofs.DocumentOrder
import DefectScan.Proofs.Lines
import DefectScan.Proofs.StackPlaces
import DefectScan.Proofs.TokenPlaces

/-!
# Places of a tree

However a text is read, and whatever is repaired on the way, all places in its tree are places of the
text (`readText_within`):

    readText automaton text = some t → t.Within (Position.IsIn text)

Every part of a reading keeps to the places that are on the stack (`Keeps`); only where the next token
is read do new ones come in, and those are places of the text.
-/

namespace DefectScan.Parse

open DefectScan.Grammar

/-- A property that the places of the tokens of a text have. -/
structure Source.Closed (src : Source) (P : Position → Prop) : Prop where
  start : P .start
  tokens : ∀ g expected p, P p → P (nextToken g expected (src.cursor p)).start.position ∧
    P (nextToken g expected (src.cursor p)).stop.position

structure Reading.Within (P : Position → Prop) (src : Source) (r : Reading) : Prop where
  stack : r.stack.Within P
  finished : ∀ t, r.finished = some t → t.Within P
  source : r.source = src

/-- A part of a reading keeps to the places that have a property, and its result is as `Q` says. -/
def Keeps {α : Type} (P : Position → Prop) (src : Source) (Q : α → Prop) (m : ReadingM α) : Prop :=
  ∀ r : Reading, r.Within P src → Q (m.run r).1 ∧ (m.run r).2.Within P src

/-- A part of a reading that keeps to these places, whatever its result is. -/
abbrev Stays {α : Type} (P : Position → Prop) (src : Source) (m : ReadingM α) : Prop :=
  Keeps P src (fun _ => True) m

variable {P : Position → Prop} {src : Source} {α β : Type} {Q : α → Prop}

namespace Keeps

theorem pure {a : α} (h : Q a) : Keeps P src Q (Pure.pure a) := fun _ hr => ⟨h, hr⟩

theorem bind {Q' : β → Prop} {m : ReadingM β} {f : β → ReadingM α} (hm : Keeps P src Q' m)
    (hf : ∀ b, Q' b → Keeps P src Q (f b)) : Keeps P src Q (m >>= f) := by
  intro r hr
  obtain ⟨hresult, hafter⟩ := hm r hr
  exact hf _ hresult _ hafter

/-- A part whose result is not looked at. -/
theorem andThen {m : ReadingM β} {f : β → ReadingM α} (hm : Stays P src m)
    (hf : ∀ b, Keeps P src Q (f b)) : Keeps P src Q (m >>= f) :=
  hm.bind fun b _ => hf b

theorem ite {c : Prop} [Decidable c] {m m' : ReadingM α} (hm : Keeps P src Q m)
    (hm' : Keeps P src Q m') : Keeps P src Q (if c then m else m') := by
  split
  · exact hm
  · exact hm'

theorem forIn {f : α → PUnit → ReadingM (ForInStep PUnit)} (l : List α)
    (h : ∀ a ∈ l, Stays P src (f a ⟨⟩)) :
    Stays P src (ForIn.forIn l PUnit.unit f) := by
  induction l with
  | nil => exact pure trivial
  | cons a l ih =>
    obtain ⟨ha, hl⟩ := List.forall_mem_cons.mp h
    rw [List.forIn_cons]
    apply andThen ha
    intro step
    cases step with
    | done => exact pure trivial
    | yield => exact ih hl

end Keeps

namespace Reading

theorem keeps_get : Keeps P src (Within P src) (get : ReadingM Reading) := fun _ hr => ⟨hr, hr⟩

theorem keeps_getStack : Keeps P src (Stack.Within P) getStack := fun _ hr => ⟨hr.stack, hr⟩

theorem keeps_getTable : Stays P src getTable := fun _ hr => ⟨trivial, hr⟩

theorem keeps_modifyStack {f : Stack → Stack} (hf : ∀ s, s.Within P → (f s).Within P) :
    Stays P src (modifyStack f) :=
  fun _ hr => ⟨trivial, hf _ hr.stack, hr.finished, hr.source⟩

/-- The stack may be put in place of the old one. -/
theorem keeps_setStack {s : Stack} (hs : s.Within P) :
    Stays P src (modifyStack fun _ => s) :=
  keeps_modifyStack fun _ _ => hs

theorem keeps_remove (v : Nat) : Stays P src (modifyStack (·.remove v)) :=
  keeps_modifyStack fun _ hs => hs.remove v

theorem keeps_halt (v : Nat) : Stays P src (modifyStack (·.halt v)) :=
  keeps_modifyStack fun _ hs => hs.halt v

theorem keeps_push (hstart : P .start) (v : Nat) {t : Subtree} (ht : t.Within P) (state : Nat) :
    Stays P src (modifyStack (·.push v (some t) state)) := by
  apply keeps_modifyStack
  intro s hs
  apply hs.push hstart
  rintro t' ⟨rfl⟩
  exact ht

theorem keeps_move (state symbol : Nat) : Stays P src (move state symbol) :=
  fun _ hr => ⟨trivial, hr.stack, hr.finished, hr.source⟩

theorem keeps_actionsOn (state : Nat) (label : Label) :
    Stays P src (actionsOn state label) := by
  unfold actionsOn
  split
  · exact keeps_get.bind fun r _ => .pure trivial
  · exact .pure trivial

theorem keeps_stateAfter (state symbol : Nat) :
    Stays P src (stateAfter state symbol) := by
  unfold stateAfter
  apply Keeps.ite
  · exact .pure trivial
  · apply keeps_getTable.andThen
    intro g
    apply Keeps.ite
    · exact keeps_move state symbol
    · apply keeps_get.bind
      intro r _
      split
      · exact keeps_move state symbol
      · exact .pure trivial
      · exact .pure trivial

/-! ## Comparing readings -/

theorem keeps_settle (v : Nat) : Stays P src (settle v) := by
  apply keeps_modifyStack
  intro s hs
  apply hs.modifyHead
  intro h hh
  exact hh

theorem keeps_standing (v : Nat) : Stays P src (standing v) := by
  apply (keeps_settle v).andThen
  intro _
  exact keeps_getStack.bind fun s _ => .pure trivial

theorem keeps_betterAmong (v : Nat) (own : Stack.Standing) (is : List Nat) :
    Stays P src (betterAmong v own is) := by
  induction is with
  | nil => exact .pure trivial
  | cons i rest ih =>
    unfold betterAmong
    apply keeps_getStack.bind
    intro s _
    apply Keeps.ite
    · exact ih
    · apply (keeps_standing i).andThen
      intro other
      split
      · exact .pure trivial
      · exact keeps_getStack.bind fun s _ => .ite (.pure trivial) ih
      · exact ih

theorem keeps_betterExists (v cost : Nat) :
    Stays P src (betterExists v cost) := by
  unfold betterExists
  apply keeps_get.bind
  intro r _
  apply Keeps.ite
  · exact .pure trivial
  · apply (keeps_settle v).andThen
    intro _
    exact keeps_getStack.bind fun s _ => keeps_betterAmong v _ _

/-! ## Completing productions -/

theorem bestBranch_within {g : Table} {p : Nat} {place : Position} (hplace : P place)
    {trees : List (List Subtree)} (htrees : ∀ ts ∈ trees, ∀ t ∈ ts, t.Within P) :
    ∀ {best : Option (Subtree × List Subtree)},
      (∀ b, best = some b → b.1.Within P ∧ ∀ t ∈ b.2, t.Within P) →
      ∀ b, bestBranch g p place trees best = some b → b.1.Within P ∧ ∀ t ∈ b.2, t.Within P := by
  induction trees with
  | nil =>
    intro best hbest
    exact hbest
  | cons ts rest ih =>
    intro best hbest
    obtain ⟨hts, hrest⟩ := List.forall_mem_cons.mp htrees
    have hsubset := Subtree.splitExtras_subset ts
    unfold bestBranch
    generalize Subtree.splitExtras ts = parts at hsubset ⊢
    obtain ⟨children, extras⟩ := parts
    obtain ⟨hchildren, hextras⟩ := hsubset
    have hnew := Subtree.within_branch g (.symbol (g.production p).symbol) (some p) hplace
      fun t ht => hts t (hchildren t ht)
    have hnew' : ∀ t ∈ extras, t.Within P := fun t ht => hts t (hextras t ht)
    simp only
    split
    · apply ih hrest
      rintro b ⟨rfl⟩
      exact ⟨hnew, hnew'⟩
    · next old oldExtras =>
      apply ih hrest
      intro b hb
      split at hb
      · cases hb
        exact ⟨hnew, hnew'⟩
      · exact hbest b hb

theorem pushAll_within (hstart : P .start) {trees : List Subtree} (htrees : ∀ t ∈ trees, t.Within P)
    (w target : Nat) {s : Stack} (hs : s.Within P) :
    (trees.foldl (fun s t => s.push w (some t) target) s).Within P := by
  apply List.foldlRecOn (motive := Stack.Within P)
  · exact hs
  · intro s' hs' t ht
    apply hs'.push hstart
    rintro t' ⟨rfl⟩
    exact htrees t ht

variable (hP : src.Closed P)

include hP

theorem keeps_reduceSlice (v p halted removed : Nat) {slice : Stack.Slice} (hslice : slice.Within P) :
    Stays P src (reduceSlice v p halted removed slice) := by
  unfold reduceSlice
  apply Keeps.ite
  · exact (keeps_remove _).andThen fun _ => .pure trivial
  · apply keeps_getTable.andThen
    intro g
    apply keeps_getStack.bind
    intro s hs
    split
    · exact .pure trivial
    · next tree extras hbest =>
      obtain ⟨htree, hextras⟩ :=
        bestBranch_within (hs.place hP.start _) hslice (by rintro b ⟨⟩) _ hbest
      apply (keeps_move _ _).andThen
      intro target
      apply (keeps_modifyStack ?_).andThen
      · intro _
        apply keeps_getStack.bind
        intro s hs
        split
        · next s' hmerge =>
          apply (keeps_setStack (hs.mergeBelow hP.start hmerge)).andThen
          intro _
          exact .pure trivial
        · exact .pure trivial
      · intro s hs
        apply pushAll_within hP.start ?_ _ _ hs
        exact List.forall_mem_cons.mpr ⟨htree.congr rfl rfl rfl rfl, hextras⟩

theorem keeps_reduceSlices (v p halted : Nat) {slices : List Stack.Slice} (removed : Nat)
    (hslices : ∀ slice ∈ slices, slice.Within P) :
    Stays P src (reduceSlices v p halted slices removed) := by
  induction slices generalizing removed with
  | nil => exact .pure trivial
  | cons slice rest ih =>
    obtain ⟨hslice, hrest⟩ := List.forall_mem_cons.mp hslices
    unfold reduceSlices
    apply (keeps_reduceSlice hP v p halted removed hslice).andThen
    intro gone
    exact ih _ hrest

theorem keeps_reduce (v p : Nat) : Stays P src (reduce v p) := by
  unfold reduce
  apply keeps_getTable.andThen
  intro g
  apply keeps_getStack.bind
  intro s₀ _
  apply keeps_getStack.bind
  intro s hs
  obtain ⟨hslices, hpopped⟩ := Stack.pop_within hs hP.start v (g.production p).steps.size
  apply (keeps_setStack hpopped).andThen
  intro _
  apply (keeps_reduceSlices hP v p _ 0 hslices).andThen
  intro _
  exact keeps_getStack.bind fun s _ => .pure trivial

theorem keeps_reduceEach (v : Nat) (ps : List Nat) (last : Option Nat) :
    Stays P src (reduceAll.reduceEach v ps last) := by
  induction ps generalizing last with
  | nil => exact .pure trivial
  | cons p ps ih =>
    unfold reduceAll.reduceEach
    exact (keeps_reduce hP v p).andThen fun last => ih last

theorem keeps_reduceAll_go (first : Nat) (look : Option Nat) (before fuel : Nat) :
    ∀ (v round : Nat) (can : Bool),
      Stays P src (reduceAll.go first look before fuel v round can) := by
  induction fuel with
  | zero =>
    intro v round can
    exact .pure trivial
  | succ fuel ih =>
    intro v round can
    unfold reduceAll.go
    apply keeps_getStack.bind
    intro s hs
    apply Keeps.ite
    · exact .pure trivial
    · split
      · next s' hmerge =>
        exact (keeps_setStack (hs.mergeBelow hP.start hmerge)).andThen fun _ => ih _ _ _
      · apply keeps_get.bind
        intro r _
        apply (keeps_reduceEach hP v _ none).andThen
        intro last
        apply Keeps.ite
        · exact ih _ _ _
        · split
          · next w =>
            apply Keeps.ite
            · exact (keeps_modifyStack fun s hs => hs.replace w v).andThen fun _ => ih _ _ _
            · exact .ite ((keeps_remove v).andThen fun _ => ih _ _ _) (ih _ _ _)
          · exact .ite ((keeps_remove v).andThen fun _ => ih _ _ _) (ih _ _ _)

theorem keeps_reduceAll (first : Nat) (look : Option Nat) :
    Stays P src (reduceAll first look) := by
  unfold reduceAll
  exact keeps_getStack.bind fun s _ => keeps_reduceAll_go hP first look _ _ _ _ _

/-! ## Complete readings -/

omit hP in
theorem rootOf_within {g : Table} {trees : List Subtree} (htrees : ∀ t ∈ trees, t.Within P)
    {root : Subtree} (h : rootOf g trees = some root) : root.Within P := by
  obtain ⟨hinner, hextras⟩ := Subtree.splitExtras_subset trees
  unfold rootOf at h
  simp only at h
  split at h
  · cases h
  · next t hlast =>
    cases h
    have ht := htrees t (hinner t (List.mem_of_getLast? hlast))
    refine (Subtree.within_branch g t.label none ht.start ?_).congr rfl rfl rfl rfl
    intro c hc
    rcases List.mem_append.mp hc with hc | hc
    · rcases List.mem_append.mp hc with hc | hc
      · exact htrees c (hinner c (List.dropLast_subset _ hc))
      · exact ht.children c hc
    · exact htrees c (hextras c hc)

omit hP in
theorem keeps_finish {root : Subtree} (hroot : root.Within P) :
    Stays P src (finish root) := by
  intro r hr
  refine ⟨trivial, hr.stack, ?_, hr.source⟩
  intro t ht
  have hone : ∀ better : Bool, (if better then some root else r.finished) = some t → t.Within P := by
    intro better h
    cases better with
    | true =>
      cases h
      exact hroot
    | false => exact hr.finished t h
  exact hone _ ht

theorem keeps_accept (v : Nat) {look : Subtree} (hlook : look.Within P) :
    Stays P src (accept v look) := by
  unfold accept
  apply (keeps_push hP.start v hlook _).andThen
  intro _
  apply keeps_getStack.bind
  intro s hs
  obtain ⟨hslices, hpopped⟩ := Stack.popAll_within hs hP.start v
  apply (keeps_setStack hpopped).andThen
  intro _
  apply keeps_getTable.andThen
  intro g
  apply Keeps.andThen
  · apply Keeps.forIn
    intro slice hslice
    apply Keeps.andThen
    · apply Keeps.forIn
      intro trees htrees
      split
      · next root hroot =>
        have hroot := rootOf_within (hslices slice hslice trees htrees) hroot
        exact (keeps_finish hroot).andThen fun _ => .pure trivial
      · exact .pure trivial
    · intro _
      exact .pure trivial
  · intro _
    split
    · exact (keeps_remove _).andThen fun _ => keeps_halt v
    · exact keeps_halt v

/-! ## Repairs -/

theorem keeps_takeError (v : Nat) :
    Keeps P src (fun ts : List Subtree => ∀ t ∈ ts, t.Within P) (takeError v) := by
  have hnone : ∀ t ∈ ([] : List Subtree), t.Within P := by simp
  unfold takeError
  apply keeps_getStack.bind
  intro s hs
  apply Keeps.ite
  · have hpopped := Stack.popError_within hs hP.start v
    generalize s.popError v = popped at hpopped ⊢
    obtain ⟨slices, s'⟩ := popped
    obtain ⟨hslices, hs'⟩ := hpopped
    simp only at hslices hs' ⊢
    split
    · next slice rest =>
      have hslice := hslices slice List.mem_cons_self
      apply (keeps_setStack (hs'.replace slice.head v)).andThen
      intro _
      split
      · next t ts rest' htrees =>
        have ht := hslice (t :: ts) (htrees ▸ List.mem_cons_self) t List.mem_cons_self
        exact .pure ht.children
      · exact .pure hnone
    · exact (keeps_setStack hs').andThen fun _ => .pure hnone
  · exact .pure hnone

theorem keeps_goBackOn (goal : Nat) {slices : List Stack.Slice} (done : Bool)
    (hslices : ∀ slice ∈ slices, slice.Within P) :
    Stays P src (goBackOn goal slices done) := by
  induction slices generalizing done with
  | nil => exact .pure trivial
  | cons slice rest ih =>
    obtain ⟨hslice, hrest⟩ := List.forall_mem_cons.mp hslices
    unfold goBackOn
    apply keeps_getStack.bind
    intro s _
    apply Keeps.ite
    · exact (keeps_halt _).andThen fun _ => ih _ hrest
    · apply (keeps_takeError hP _).bind
      intro inner hinner
      apply keeps_getTable.andThen
      intro g
      -- what was read since goes under an error, with the trees of an error before it
      have hsubset := Subtree.splitExtras_subset (inner ++ slice.trees.headD [])
      have hall : ∀ t ∈ inner ++ slice.trees.headD [], t.Within P := by
        intro t ht
        rcases List.mem_append.mp ht with ht | ht
        · exact hinner t ht
        · exact hslice.headD t ht
      generalize Subtree.splitExtras (inner ++ slice.trees.headD []) = parts at hsubset ⊢
      obtain ⟨trees, extras⟩ := parts
      obtain ⟨htrees, hextras⟩ := hsubset
      apply keeps_getStack.bind
      intro s hs
      have herror := Subtree.within_branch g .error none (hs.place hP.start slice.head)
        fun t ht => hall t (htrees t ht)
      have hextras : ∀ t ∈ extras, t.Within P := fun t ht => hall t (hextras t ht)
      apply (keeps_modifyStack ?_).andThen
      · intro _
        exact ih _ hrest
      · intro s hs
        apply pushAll_within hP.start ?_ _ _ hs
        split
        · exact hextras
        · exact List.forall_mem_cons.mpr ⟨herror.congr rfl rfl rfl rfl, hextras⟩

theorem keeps_goBack (v depth goal : Nat) : Stays P src (goBack v depth goal) := by
  unfold goBack
  apply keeps_getStack.bind
  intro s hs
  obtain ⟨hslices, hpopped⟩ := Stack.pop_within hs hP.start v depth
  exact (keeps_setStack hpopped).andThen fun _ => keeps_goBackOn hP goal false hslices

theorem keeps_tryLandmarks (v cost before : Nat) (progressed : Bool) (look : Subtree)
    (ls : List Landmark) :
    Stays P src (tryLandmarks v cost before progressed look ls) := by
  induction ls with
  | nil => exact .pure trivial
  | cons l rest ih =>
    unfold tryLandmarks
    apply keeps_getStack.bind
    intro s _
    apply Keeps.ite ih
    apply (keeps_betterExists v _).andThen
    intro better
    apply Keeps.ite
    · exact .pure trivial
    · apply (keeps_actionsOn _ _).andThen
      intro actions
      apply Keeps.ite ih
      apply (keeps_goBack hP v _ _).andThen
      intro went
      exact .ite (.pure trivial) ih

theorem keeps_skipToken (v : Nat) (progressed : Bool) {look : Subtree} (hlook : look.Within P) :
    Stays P src (skipToken v progressed look) := by
  unfold skipToken
  apply keeps_getTable.andThen
  intro g
  have hlook' : Subtree.Within P
      (if look.label = .symbol g.comment then { look with extra := true } else look) := by
    split
    · exact hlook.congr rfl rfl rfl rfl
    · exact hlook
  generalize (if look.label = .symbol g.comment then { look with extra := true } else look) = look'
    at hlook' ⊢
  -- the token is wrapped, and joins what has been skipped before it if there is such a tree
  have hstep : (Subtree.branch g .skipped [look'] none look'.start).Within P := by
    apply Subtree.within_branch g _ _ hlook'.start
    exact List.forall_mem_singleton.mpr hlook'
  apply Keeps.ite
  · apply keeps_getStack.bind
    intro s hs
    have hpopped := Stack.pop_within hs hP.start v 1
    generalize s.pop v 1 = popped at hpopped ⊢
    obtain ⟨slices, s'⟩ := popped
    obtain ⟨hslices, hs'⟩ := hpopped
    simp only at hslices hs' ⊢
    split
    · next slice rest =>
      have hslice := hslices slice List.mem_cons_self
      apply Keeps.andThen
      · apply keeps_setStack
        apply Stack.Within.replace
        exact hs'.withHeads fun x hx => hs'.heads x (List.mem_of_mem_take hx)
      · intro _
        apply keeps_push hP.start
        apply Subtree.within_branch g _ _ hlook'.start
        intro t ht
        rcases List.mem_append.mp ht with ht | ht
        · exact hslice.headD t ht
        · rw [List.mem_singleton.mp ht]
          exact hstep
    · apply keeps_setStack
      apply hs'.push hP.start
      rintro t ⟨rfl⟩
      exact hstep
  · exact keeps_push hP.start v hstep _

theorem keeps_recover (v : Nat) {look : Subtree} (hlook : look.Within P) :
    Stays P src (recover v look) := by
  unfold recover
  apply (keeps_settle v).andThen
  intro _
  apply keeps_getStack.bind
  intro s _
  extract_lets before progressed cost onward
  -- whether or not a way back was found, the reading may still end here or skip the token
  have honward : ∀ wentBack, Stays P src (onward wentBack) := by
    intro wentBack
    apply Keeps.andThen
    · apply keeps_modifyStack
      intro s' hs'
      apply hs'.withHeads
      intro x hx
      rcases List.mem_append.mp hx with hx | hx
      · exact hs'.heads x (List.mem_of_mem_take hx)
      · exact hs'.heads x (List.mem_of_mem_drop (List.mem_filter.mp hx).1)
    · intro _
      apply keeps_getStack.bind
      intro s' _
      apply Keeps.ite (keeps_halt v)
      apply Keeps.ite
      · apply keeps_getTable.andThen
        intro g
        apply keeps_getStack.bind
        intro s'' hs''
        apply Keeps.andThen
        · apply keeps_push hP.start
          exact Subtree.within_branch g _ _ (hs''.place hP.start v) (by simp)
        · intro _
          exact keeps_accept hP v hlook
      · apply (keeps_betterExists v _).andThen
        intro better
        exact .ite (keeps_halt v) (keeps_skipToken hP v _ hlook)
  apply Keeps.ite
  · exact honward false
  · exact (keeps_tryLandmarks hP v _ _ _ _ _).andThen honward

theorem keeps_tryMissing (w : Nat) {place : Position} (hplace : P place) (look : Subtree)
    (ms : List Nat) : Stays P src (tryMissing w place look ms) := by
  induction ms with
  | nil => exact .pure trivial
  | cons m rest ih =>
    unfold tryMissing
    apply keeps_getStack.bind
    intro s _
    apply (keeps_stateAfter _ m).andThen
    intro target
    split
    · exact ih
    · next target =>
      apply (keeps_actionsOn target _).andThen
      intro actions
      apply Keeps.ite ih
      apply keeps_getStack.bind
      intro s' hs'
      apply keeps_getTable.andThen
      intro g
      apply Keeps.andThen
      · apply keeps_setStack
        apply (hs'.duplicate w).push hP.start
        rintro t ⟨rfl⟩
        exact Subtree.within_missingLeaf g m hplace
      · intro _
        apply (keeps_reduceAll hP _ _).andThen
        intro can
        exact .ite (.pure trivial) ih

theorem keeps_loseEach {place : Position} (hplace : P place) (look : Subtree) (ws : List Nat)
    (repaired : Bool) : Stays P src (loseEach place look ws repaired) := by
  induction ws generalizing repaired with
  | nil => exact .pure trivial
  | cons w rest ih =>
    unfold loseEach
    apply keeps_getTable.andThen
    intro g
    extract_lets onward
    have honward : ∀ repaired, Stays P src (onward repaired) := by
      intro repaired'
      apply Keeps.andThen
      · apply keeps_modifyStack
        intro s hs
        apply hs.push hP.start
        rintro t ⟨⟩
      · intro _
        exact ih _
    apply Keeps.ite
    · exact honward true
    · exact (keeps_tryMissing hP w hplace look _).andThen honward

theorem keeps_handleError (v : Nat) {look : Subtree} (hlook : look.Within P) :
    Stays P src (handleError v look) := by
  unfold handleError
  apply keeps_getStack.bind
  intro s₀ _
  apply (keeps_reduceAll hP v none).andThen
  intro _
  apply keeps_getStack.bind
  intro s hs
  apply (keeps_loseEach hP (hs.place hP.start v) look _ false).andThen
  intro _
  apply Keeps.andThen
  · apply Keeps.forIn
    intro _ _
    apply Keeps.andThen
    · apply keeps_modifyStack
      intro s' hs'
      cases hmerge : s'.merge v s₀.size with
      | none => exact hs'
      | some s'' => exact hs'.merge hP.start hmerge
    · intro _
      exact .pure trivial
  · intro _
    apply Keeps.andThen
    · apply keeps_modifyStack
      intro s' hs'
      apply hs'.modifyHead
      intro h hh
      exact hh
    · intro _
      exact keeps_recover hP v hlook

/-! ## Keeping the best readings -/

theorem keeps_condenseOne (own : Stack.Standing) (fuel : Nat) :
    ∀ i j, Stays P src (condenseOne own fuel i j) := by
  induction fuel with
  | zero =>
    intro i j
    exact .pure trivial
  | succ fuel ih =>
    intro i j
    have hjoin : ∀ {s s' : Stack}, s.Within P → s.merge j i = some s' →
        Stays P src (do modifyStack fun _ => s'; return i - 1) := by
      intro s s' hs hmerge
      exact (keeps_setStack (hs.merge hP.start hmerge)).andThen fun _ => .pure trivial
    unfold condenseOne
    apply Keeps.ite
    · exact .pure trivial
    · apply (keeps_standing j).andThen
      intro other
      split
      · exact (keeps_remove i).andThen fun _ => .pure trivial
      · apply keeps_getStack.bind
        intro s hs
        split
        · next s' hmerge => exact hjoin hs hmerge
        · exact ih _ _
      · apply keeps_getStack.bind
        intro s hs
        split
        · next s' hmerge => exact hjoin hs hmerge
        · exact ih _ _
      · apply keeps_getStack.bind
        intro s hs
        split
        · next s' hmerge => exact hjoin hs hmerge
        · apply Keeps.andThen
          · -- the two readings change places
            apply keeps_modifyStack
            intro s' hs'
            apply hs'.withHeads
            intro x hx
            rcases List.mem_or_eq_of_mem_set hx with hx | rfl
            · rcases List.mem_or_eq_of_mem_set hx with hx | rfl
              · exact hs'.heads x hx
              · exact hs'.head j
            · exact hs'.head i
          · intro _
            exact ih _ _
      · exact (keeps_remove j).andThen fun _ => ih _ _

theorem keeps_condenseAll (fuel : Nat) :
    ∀ i least, Stays P src (condenseAll fuel i least) := by
  induction fuel with
  | zero =>
    intro i least
    exact .pure trivial
  | succ fuel ih =>
    intro i least
    unfold condenseAll
    apply keeps_getStack.bind
    intro s _
    apply Keeps.ite
    · exact .pure trivial
    · apply Keeps.ite
      · exact (keeps_remove i).andThen fun _ => ih _ _
      · apply (keeps_standing i).andThen
        intro own
        exact (keeps_condenseOne hP own _ _ _).andThen fun _ => ih _ _

theorem keeps_resume (fuel : Nat) :
    ∀ i count running least, Stays P src (resume fuel i count running least) := by
  induction fuel with
  | zero =>
    intro i count running least
    exact .pure trivial
  | succ fuel ih =>
    intro i count running least
    unfold resume
    apply Keeps.ite
    · exact .pure trivial
    · apply keeps_getStack.bind
      intro s hs
      split
      · next look hpaused =>
        have hlook := hs.head i look hpaused
        apply keeps_get.bind
        intro r _
        apply Keeps.ite
        · apply Keeps.andThen
          · apply keeps_modifyStack
            intro s' hs'
            apply hs'.modifyHead
            intro h _
            exact Head.within_active
          · intro _
            exact (keeps_handleError hP i hlook).andThen fun _ => ih _ _ _ _
        · exact (keeps_remove i).andThen fun _ => ih _ _ _ _
      · exact ih _ _ _ _

theorem keeps_condense : Stays P src condense := by
  unfold condense
  apply keeps_getStack.bind
  intro s _
  apply (keeps_condenseAll hP _ _ _).andThen
  intro least
  apply Keeps.andThen
  · apply keeps_modifyStack
    intro s' hs'
    exact hs'.withHeads fun x hx => hs'.heads x (List.mem_of_mem_take hx)
  · intro _
    apply keeps_getStack.bind
    intro s' _
    exact keeps_resume hP _ _ _ _ _

/-! ## Going on -/

theorem keeps_perform (v : Nat) {look : Subtree} (hlook : look.Within P) (actions : List Action) :
    ∀ last, Stays P src (perform v look actions last) := by
  induction actions with
  | nil =>
    intro last
    exact .pure trivial
  | cons a rest ih =>
    intro last
    unfold perform
    apply keeps_getStack.bind
    intro s _
    cases a with
    | shift =>
      apply (keeps_move _ _).andThen
      intro target
      exact (keeps_push hP.start v hlook _).andThen fun _ => .pure trivial
    | pass =>
      have hextra : Subtree.Within P { look with extra := true } := hlook.congr rfl rfl rfl rfl
      exact (keeps_push hP.start v hextra _).andThen fun _ => .pure trivial
    | reduce p => exact (keeps_reduce hP v p).andThen fun new => ih _
    | accept => exact (keeps_accept hP v hlook).andThen fun _ => .pure trivial
    | recover => exact (keeps_recover hP v hlook).andThen fun _ => .pure trivial

theorem keeps_process (v : Nat) (isKeyword : Bool) (fuel : Nat) :
    ∀ {look : Subtree}, look.Within P →
      Stays P src (process v isKeyword fuel look) := by
  induction fuel with
  | zero =>
    intro look _
    exact keeps_halt v
  | succ fuel ih =>
    intro look hlook
    unfold process
    apply keeps_getTable.andThen
    intro g
    apply keeps_getStack.bind
    intro s _
    apply (keeps_actionsOn _ _).andThen
    intro actions
    apply (keeps_perform hP v hlook actions none).andThen
    rintro ⟨done, last⟩
    apply Keeps.ite
    · exact .pure trivial
    · split
      · next w =>
        exact (keeps_modifyStack fun s hs => hs.replace w v).andThen fun _ => ih hlook
      · have hname : Subtree.Within P { look with
            label := .symbol g.identifier, visible := Label.visible g (.symbol g.identifier) } :=
          hlook.congr rfl rfl rfl rfl
        apply (keeps_actionsOn _ _).andThen
        intro actions'
        apply Keeps.ite (ih hname)
        apply Keeps.ite (keeps_recover hP v hlook)
        apply keeps_modifyStack
        intro s' hs'
        apply hs'.modifyHead
        rintro h _ t ⟨rfl⟩
        exact hlook

/-- The places of the next token are the only new ones. -/
theorem keeps_advance (fuel v : Nat) : Stays P src (advance fuel v) := by
  unfold advance
  apply keeps_get.bind
  intro r hr
  have hplace := hr.stack.place hP.start v
  have htoken := hP.tokens r.automaton.table (r.automaton.state (r.stack.state v)).expected
    (r.stack.place v) hplace
  rw [← hr.source] at htoken
  apply keeps_process hP
  exact Subtree.within_leaf _ _ hplace htoken.1 htoken.2

theorem keeps_advanceHead (fuel v n : Nat) :
    ∀ last, Stays P src (advanceHead fuel v n last) := by
  induction n with
  | zero =>
    intro last
    exact .pure trivial
  | succ n ih =>
    intro last
    unfold advanceHead
    apply keeps_getStack.bind
    intro s _
    apply Keeps.ite (.pure trivial)
    apply keeps_getStack.bind
    intro s' _
    apply Keeps.ite (.pure trivial)
    apply (keeps_advance hP fuel v).andThen
    intro _
    apply keeps_getStack.bind
    intro s'' _
    exact .ite (.pure trivial) (ih _)

theorem keeps_advanceHeads (fuel n : Nat) :
    ∀ v last, Stays P src (advanceHeads fuel n v last) := by
  induction n with
  | zero =>
    intro v last
    exact .pure trivial
  | succ n ih =>
    intro v last
    unfold advanceHeads
    apply keeps_getStack.bind
    intro s _
    apply Keeps.ite (.pure trivial)
    exact (keeps_advanceHead hP fuel v fuel last).andThen fun _ => ih _ _

theorem keeps_run (fuel n : Nat) : ∀ last, Stays P src (run fuel n last) := by
  induction n with
  | zero =>
    intro last
    exact .pure trivial
  | succ n ih =>
    intro last
    unfold run
    apply (keeps_advanceHeads hP fuel fuel 0 last).andThen
    intro last'
    apply (keeps_condense hP).andThen
    intro least
    apply keeps_get.bind
    intro r _
    exact .ite (.pure trivial) (ih _)

end Reading

theorem Source.closed_isIn (text : List Char) : (Source.ofText text).Closed (Position.IsIn text) := by
  refine ⟨Position.isIn_start text, ?_⟩
  intro g expected p hp
  obtain ⟨hstart, hstop⟩ := nextToken_isIn g expected (cursor_isIn hp)
  exact ⟨hstart.position, hstop.position⟩

/-- All places in the tree of a text are places of the text. -/
theorem readText_within {automaton : Automaton} {text : List Char} {t : Subtree}
    (h : readText automaton text = some t) : t.Within (Position.IsIn text) := by
  have hstart : Reading.Within (Position.IsIn text) (.ofText text)
      { automaton, source := .ofText text, stack := .initial, finished := none, accepted := 0 } := by
    refine ⟨Stack.within_initial (Position.isIn_start text), ?_, rfl⟩
    rintro t ⟨⟩
  have hkeeps := Reading.keeps_run (Source.closed_isIn text) (stepBound text) (stepBound text) 0
  exact (hkeeps _ hstart).2.finished t h

end DefectScan.Parse

/-! ## Nodes -/

namespace DefectScan

open Parse Grammar

/-- All places at which a node and those below it begin have a property. -/
inductive Node.Within (P : Position → Prop) : Node → Prop
  | intro {n : Node} (start : P n.start) (children : ∀ c ∈ n.children, Within P c) : Within P n

variable {P : Position → Prop}

namespace Node

theorem Within.addLabel {n : Node} (h : n.Within P) (label : Option String) :
    (n.addLabel label).Within P := by
  cases h with
  | intro start children =>
    unfold Node.addLabel
    split
    · exact ⟨start, children⟩
    · exact ⟨start, children⟩

theorem Within.at? {n m : Node} (h : n.Within P) {path : List Nat} (hm : n.at? path = some m) :
    m.Within P := by
  induction path generalizing n with
  | nil =>
    cases hm
    exact h
  | cons i path ih =>
    obtain ⟨child, hchild, hm⟩ := Option.bind_eq_some_iff.mp hm
    cases h with
    | intro _ children => exact ih (children child (List.mem_of_getElem? hchild)) hm

theorem labelFirst_within (label : Option String) {ns : List Node} (h : ∀ n ∈ ns, n.Within P) :
    ∀ n ∈ labelFirst label ns, n.Within P := by
  cases ns with
  | nil => exact h
  | cons n ns =>
    obtain ⟨hn, hns⟩ := List.forall_mem_cons.mp h
    exact List.forall_mem_cons.mpr ⟨hn.addLabel label, hns⟩

mutual
theorem ofSubtree_within (g : Table) (step : Option NumberedStep) :
    ∀ {t : Subtree}, t.Within P → ∀ n ∈ ofSubtree g step t, n.Within P
  | ⟨_, children, _, _, _, _, _, _, _, _, _, _, production⟩, h => by
    have hchildren : ∀ c ∈ children, c.Within P := h.children
    have hbelow := ofSubtrees_within g (production.map fun p => (g.production p).steps.toList)
      hchildren
    unfold ofSubtree
    simp only
    split
    · rw [List.forall_mem_singleton]
      exact Within.addLabel ⟨h.start, hbelow⟩ _
    · exact labelFirst_within _ hbelow

theorem ofSubtrees_within (g : Table) (steps : Option (List NumberedStep)) :
    ∀ {ts : List Subtree}, (∀ t ∈ ts, t.Within P) → ∀ n ∈ ofSubtrees g steps ts, n.Within P
  | [], _ => by
    intro n hn
    cases hn
  | t :: ts, h => by
    obtain ⟨ht, hts⟩ := List.forall_mem_cons.mp h
    unfold ofSubtrees
    split
    · exact List.forall_mem_append.mpr ⟨ofSubtree_within g none ht, ofSubtrees_within g steps hts⟩
    · split
      · exact List.forall_mem_append.mpr ⟨ofSubtree_within g _ ht, ofSubtrees_within g _ hts⟩
      · exact List.forall_mem_append.mpr ⟨ofSubtree_within g none ht, ofSubtrees_within g steps hts⟩
end

end Node

theorem C.tree?_within {text : List Char} {root : Node} (h : C.tree? text = some root) :
    root.Within (Position.IsIn text) := by
  unfold C.tree? at h
  split at h
  · next t ht =>
    exact Node.ofSubtree_within _ _ (readText_within ht) root (List.mem_of_head? h)
  · cases h

/-! ## Lines of the structural findings -/

namespace Structural

/-- A line that the detector names is one of the text; a fault of the syntax has none. -/
theorem line_of_mem_scan {text : String} {fs : List Finding} {f : Finding}
    (h : scan text = some fs) (hf : f ∈ fs) : f.line ≤ Text.Lines.count text.toList := by
  unfold scan at h
  obtain ⟨root, hroot, rfl⟩ := Option.map_eq_some_iff.mp h
  unfold scanTree at hf
  split at hf
  · rw [List.mem_singleton.mp hf]
    exact Nat.zero_le _
  · obtain ⟨function, hfunction, hcheck⟩ := mem_walk_root.mp hf
    obtain ⟨-, -, rfl⟩ := checkFunction_eq_some_iff.mp hcheck
    obtain ⟨path, hpath⟩ := exists_path_of_mem_functions hfunction
    cases (C.tree?_within hroot).at? hpath with
    | intro start _ =>
      obtain ⟨pre, post, htext, hplace⟩ := start
      have hrow : function.start.row = pre.count '\n' := by
        rw [hplace, Position.behind, Position.row_foldl]
        exact Nat.zero_add _
      show function.start.row + 1 ≤ _
      rw [Text.Lines.count_eq, hrow, htext, List.count_append]
      omega

end Structural

end DefectScan
