import DefectScan.Parse.Stack

/-!
# Places on a stack

A property of places holds within a tree if all places of the tree have it, and within a stack if it
holds of the places of the nodes and within all trees on the links and in the heads. Whatever is done
to a stack keeps it, since trees and places are only moved about: joining readings adds links that
were there before (`addLink_within`), and a way back collects trees from links (`walk_within`).
-/

namespace DefectScan.Parse

/-- All places in a tree have a property. -/
inductive Subtree.Within (P : Position → Prop) : Subtree → Prop
  | intro {t : Subtree} (before : P t.before) (start : P t.start) (stop : P t.stop)
      (children : ∀ c ∈ t.children, Within P c) : Within P t

variable {P : Position → Prop}

namespace Subtree

theorem Within.before {t : Subtree} (h : t.Within P) : P t.before := by
  cases h with
  | intro hbefore _ _ _ => exact hbefore

theorem Within.start {t : Subtree} (h : t.Within P) : P t.start := by
  cases h with
  | intro _ hstart _ _ => exact hstart

theorem Within.stop {t : Subtree} (h : t.Within P) : P t.stop := by
  cases h with
  | intro _ _ hstop _ => exact hstop

theorem Within.children {t : Subtree} (h : t.Within P) : ∀ c ∈ t.children, c.Within P := by
  cases h with
  | intro _ _ _ hchildren => exact hchildren

/-- What is not a place and not a child does not matter. -/
theorem Within.congr {t t' : Subtree} (h : t.Within P) (hbefore : t'.before = t.before)
    (hstart : t'.start = t.start) (hstop : t'.stop = t.stop)
    (hchildren : t'.children = t.children) : t'.Within P := by
  refine ⟨?_, ?_, ?_, ?_⟩
  · rw [hbefore]
    exact h.before
  · rw [hstart]
    exact h.start
  · rw [hstop]
    exact h.stop
  · rw [hchildren]
    exact h.children

theorem within_leaf {before start stop : Position} (g : Grammar.Table) (label : Label)
    (hbefore : P before) (hstart : P start) (hstop : P stop) :
    (leaf g label before start stop).Within P := by
  refine ⟨hbefore, hstart, hstop, ?_⟩
  intro c hc
  cases hc

theorem within_missingLeaf {place : Position} (g : Grammar.Table) (s : Nat) (h : P place) :
    (missingLeaf g s place).Within P :=
  (within_leaf g (.symbol s) h h h).congr rfl rfl rfl rfl

theorem within_branch {place : Position} (g : Grammar.Table) (label : Label)
    {children : List Subtree} (production : Option Nat) (hplace : P place)
    (h : ∀ c ∈ children, c.Within P) : (branch g label children production place).Within P := by
  refine ⟨?_, ?_, ?_, h⟩
  · show P ((children.head?.map (·.before)).getD place)
    cases hhead : children.head? with
    | none => exact hplace
    | some c => exact (h c (List.mem_of_head? hhead)).before
  · show P ((children.head?.map (·.start)).getD place)
    cases hhead : children.head? with
    | none => exact hplace
    | some c => exact (h c (List.mem_of_head? hhead)).start
  · show P ((children.getLast?.map (·.stop)).getD place)
    cases hlast : children.getLast? with
    | none => exact hplace
    | some c => exact (h c (List.mem_of_getLast? hlast)).stop

/-- Splitting off the extras loses and adds nothing. -/
theorem splitExtras_subset (ts : List Subtree) :
    (∀ t ∈ (splitExtras ts).1, t ∈ ts) ∧ ∀ t ∈ (splitExtras ts).2, t ∈ ts := by
  constructor
  · intro t ht
    exact List.mem_of_mem_take ht
  · intro t ht
    have hmem := (List.takeWhile_sublist _).subset (List.mem_reverse.mp ht)
    exact List.mem_reverse.mp hmem

end Subtree

/-! ## Stacks -/

def Link.Within (P : Position → Prop) (l : Link) : Prop := ∀ t, l.tree = some t → t.Within P

structure StackNode.Within (P : Position → Prop) (n : StackNode) : Prop where
  place : P n.place
  links : ∀ l ∈ n.links, l.Within P

def Head.Within (P : Position → Prop) (h : Head) : Prop := ∀ t, h.status = .paused t → t.Within P

/-- All places on a stack have a property. -/
structure Stack.Within (P : Position → Prop) (s : Stack) : Prop where
  nodes : ∀ n ∈ s.nodes, n.Within P
  heads : ∀ h ∈ s.heads, h.Within P

theorem Head.within_active {n count : Nat} {landmarks : List Landmark} :
    Head.Within P ⟨n, count, .active, landmarks⟩ := by
  intro t ht
  cases ht

namespace Stack

theorem within_getD {nodes : Array StackNode} (hstart : P .start) (h : ∀ n ∈ nodes, n.Within P)
    (i : Nat) : (nodes.getD i default).Within P := by
  rw [Array.getD_eq_getD_getElem?]
  cases hi : nodes[i]? with
  | none =>
    refine ⟨hstart, ?_⟩
    intro l hl
    cases hl
  | some n => exact h n (Array.mem_of_getElem? hi)

variable {s : Stack}

theorem within_initial (hstart : P .start) : initial.Within P := by
  constructor
  · intro n hn
    have hn : n = { (default : StackNode) with state := Grammar.Automaton.start } := by
      simpa [initial] using hn
    subst hn
    refine ⟨hstart, ?_⟩
    intro l hl
    cases hl
  · intro h hh
    have hh : h = default := by simpa [initial] using hh
    subst hh
    exact Head.within_active

theorem Within.node (hs : s.Within P) (hstart : P .start) (i : Nat) : (s.node i).Within P :=
  within_getD hstart hs.nodes i

theorem Within.head (hs : s.Within P) (v : Nat) : (s.head v).Within P := by
  unfold Stack.head
  rw [List.getD_eq_getElem?_getD]
  cases hv : s.heads[v]? with
  | none => exact Head.within_active
  | some h => exact hs.heads h (List.mem_of_getElem? hv)

theorem Within.place (hs : s.Within P) (hstart : P .start) (v : Nat) : P (s.place v) :=
  (hs.node hstart _).place

/-- Heads may be dropped, moved and repeated. -/
theorem Within.withHeads (hs : s.Within P) {heads : List Head} (h : ∀ x ∈ heads, x.Within P) :
    Within P { s with heads } :=
  ⟨hs.nodes, h⟩

theorem mem_modify {α : Type} {f : α → α} {l : List α} {i : Nat} {x : α} (h : x ∈ l.modify i f) :
    x ∈ l ∨ ∃ y ∈ l, x = f y := by
  obtain ⟨j, hj⟩ := List.mem_iff_getElem?.mp h
  rw [List.getElem?_modify] at hj
  cases hy : l[j]? with
  | none =>
    rw [hy] at hj
    cases hj
  | some y =>
    rw [hy] at hj
    have hmem := List.mem_of_getElem? hy
    by_cases hij : i = j
    · right
      refine ⟨y, hmem, ?_⟩
      simpa [hij] using hj.symm
    · left
      have : y = x := by simpa [hij] using hj
      exact this ▸ hmem

theorem Within.modifyHead (hs : s.Within P) (v : Nat) {f : Head → Head}
    (hf : ∀ h, h.Within P → (f h).Within P) : (s.modifyHead v f).Within P := by
  apply hs.withHeads
  intro x hx
  rcases mem_modify hx with hx | ⟨y, hy, rfl⟩
  · exact hs.heads x hx
  · exact hf y (hs.heads y hy)

theorem Within.remove (hs : s.Within P) (v : Nat) : (s.remove v).Within P :=
  hs.withHeads fun x hx => hs.heads x (List.mem_of_mem_eraseIdx hx)

theorem Within.halt (hs : s.Within P) (v : Nat) : (s.halt v).Within P := by
  apply hs.modifyHead
  intro h _ t ht
  cases ht

theorem Within.push (hs : s.Within P) (hstart : P .start) (v : Nat) {tree : Option Subtree}
    (htree : ∀ t, tree = some t → t.Within P) (state : Nat) : (s.push v tree state).Within P := by
  have hbelow := hs.node hstart (s.head v).node
  unfold Stack.push
  apply Within.modifyHead
  · constructor
    · intro n hn
      rcases Array.mem_push.mp hn with hn | rfl
      · exact hs.nodes n hn
      · cases tree with
        | none =>
          refine ⟨hbelow.place, ?_⟩
          intro l hl
          rw [List.mem_singleton.mp hl]
          intro t ht
          cases ht
        | some t =>
          refine ⟨?_, ?_⟩
          · show P (if _ then _ else _)
            split
            · exact (htree t rfl).stop
            · exact hbelow.place
          · intro l hl
            rw [List.mem_singleton.mp hl]
            exact htree
    · exact hs.heads
  · intro h hh
    exact hh

theorem Within.duplicate (hs : s.Within P) (v : Nat) : (s.duplicate v).2.Within P := by
  apply hs.withHeads
  intro x hx
  rcases List.mem_append.mp hx with hx | hx
  · exact hs.heads x hx
  · rw [List.mem_singleton.mp hx]
    exact Head.within_active

/-! ## Joining readings -/

theorem within_modify {nodes : Array StackNode} (h : ∀ n ∈ nodes, n.Within P) {i : Nat}
    {f : StackNode → StackNode} (hf : ∀ n, n.Within P → (f n).Within P) :
    ∀ n ∈ nodes.modify i f, n.Within P := by
  intro n hn
  rw [← Array.mem_toList_iff, Array.toList_modify] at hn
  rcases mem_modify hn with hn | ⟨m, hm, rfl⟩
  · exact h n (Array.mem_toList_iff.mp hn)
  · exact hf m (h m (Array.mem_toList_iff.mp hm))

theorem addLink_within (hstart : P .start) (fuel : Nat) :
    ∀ {nodes : Array StackNode} {n : Nat} {link : Link}, (∀ x ∈ nodes, x.Within P) → link.Within P →
      ∀ x ∈ addLink fuel nodes n link, x.Within P := by
  induction fuel with
  | zero =>
    intro nodes n link hnodes _
    exact hnodes
  | succ fuel ih =>
    intro nodes n link hnodes hlink
    unfold addLink
    split
    · exact hnodes
    · simp only
      split
      · split
        · split
          · -- the link takes the place of one that goes to the same node
            apply within_modify hnodes
            intro x hx
            refine ⟨hx.place, ?_⟩
            intro l hl
            rcases List.mem_or_eq_of_mem_set hl with hl | rfl
            · exact hx.links l hl
            · exact hlink
          · exact hnodes
        · -- the links of the other node are joined further back
          have hlinks := (within_getD hstart hnodes link.node).links
          apply within_modify
          · apply List.foldlRecOn (motive := fun ns => ∀ x ∈ ns, StackNode.Within P x)
            · exact hnodes
            · intro ns hns l hl
              exact ih hns (hlinks l hl)
          · intro x hx
            exact ⟨hx.place, hx.links⟩
      · split
        · exact hnodes
        · apply within_modify hnodes
          intro x hx
          refine ⟨hx.place, ?_⟩
          intro l hl
          rcases List.mem_append.mp hl with hl | hl
          · exact hx.links l hl
          · rw [List.mem_singleton.mp hl]
            exact hlink

theorem Within.merge (hs : s.Within P) (hstart : P .start) {a b : Nat} {s' : Stack}
    (h : s.merge a b = some s') : s'.Within P := by
  unfold Stack.merge at h
  split at h
  · cases h
    apply Within.remove
    have hjoined : Within P { s with
        nodes := (s.top b).links.foldl (fun ns l => addLink ns.size ns (s.head a).node l) s.nodes } :=
      ⟨List.foldlRecOn (motive := fun ns => ∀ x ∈ ns, StackNode.Within P x) _ _ hs.nodes
        fun ns hns l hl => addLink_within hstart _ hns ((hs.node hstart _).links l hl), hs.heads⟩
    split
    · apply hjoined.modifyHead
      intro x hx
      exact hx
    · exact hjoined
  · cases h

theorem Within.mergeBelow (hs : s.Within P) (hstart : P .start) {v first bound : Nat}
    {except : Option Nat} {s' : Stack} (h : s.mergeBelow v first bound except = some s') :
    s'.Within P := by
  unfold Stack.mergeBelow at h
  generalize (List.range bound).drop first = js at h
  induction js with
  | nil => cases h
  | cons j js ih =>
    unfold mergeBelow.go at h
    split at h
    · exact ih h
    · split at h
      · next s'' hmerge =>
        cases h
        exact hs.merge hstart hmerge
      · exact ih h

theorem Within.replace (hs : s.Within P) (source target : Nat) :
    (s.replace source target).Within P := by
  unfold Stack.replace
  split
  · exact hs
  · apply hs.withHeads
    intro x hx
    rcases List.mem_or_eq_of_mem_set (List.mem_of_mem_eraseIdx hx) with hx | rfl
    · exact hs.heads x hx
    · split
      · exact hs.head source
      · exact hs.head source

/-! ## Ways back -/

def Trail.Within (P : Position → Prop) (t : Trail) : Prop := ∀ x ∈ t.trees, x.Within P

theorem Trail.Within.follow {t : Trail} (ht : t.Within P) {l : Link} (hl : l.Within P) :
    (t.follow l).Within P := by
  unfold Trail.follow
  split
  · exact ht
  · next x hx =>
    intro y hy
    rcases List.mem_cons.mp hy with rfl | hy
    · exact hl y hx
    · exact ht y hy

theorem walkRound_within {σ : Type} (hs : s.Within P) (hstart : P .start)
    (visit : σ → Trail → Visit × σ) (trails : List Trail) :
    ∀ {kept added taken : List Trail} {x : σ}, (∀ t ∈ trails, t.Within P) →
      (∀ t ∈ kept, t.Within P) → (∀ t ∈ added, t.Within P) → (∀ t ∈ taken, t.Within P) →
      (∀ t ∈ (walkRound s visit trails kept added taken x).1, t.Within P) ∧
        ∀ t ∈ (walkRound s visit trails kept added taken x).2.1, t.Within P := by
  induction trails with
  | nil =>
    intro kept added taken x _ hkept hadded htaken
    refine ⟨?_, htaken⟩
    intro t ht
    rcases List.mem_append.mp ht with ht | ht
    · exact hkept t (List.mem_reverse.mp ht)
    · exact hadded t (List.mem_reverse.mp ht)
  | cons trail rest ih =>
    intro kept added taken x htrails hkept hadded htaken
    obtain ⟨htrail, hrest⟩ := List.forall_mem_cons.mp htrails
    have htaken' : ∀ t ∈ (if (visit x trail).1.take then trail :: taken else taken), t.Within P := by
      split
      · exact List.forall_mem_cons.mpr ⟨htrail, htaken⟩
      · exact htaken
    have hlinks := (hs.node hstart trail.node).links
    unfold walkRound
    simp only
    split
    · exact ih hrest hkept hadded htaken'
    · next l ls hlink =>
      rw [hlink] at hlinks
      obtain ⟨hl, hls⟩ := List.forall_mem_cons.mp hlinks
      split
      · exact ih hrest hkept hadded htaken'
      -- the trail goes on along its first link, and a new one begins for each of the others
      · apply ih hrest
        · exact List.forall_mem_cons.mpr ⟨htrail.follow hl, hkept⟩
        · intro t ht
          rcases List.mem_append.mp ht with ht | ht
          · obtain ⟨l', hl', rfl⟩ := List.mem_map.mp (List.mem_reverse.mp ht)
            exact htrail.follow (hls l' (List.mem_of_mem_take hl'))
          · exact hadded t ht
        · exact htaken'

theorem walkAll_within {σ : Type} (hs : s.Within P) (hstart : P .start)
    (visit : σ → Trail → Visit × σ) (fuel : Nat) :
    ∀ {trails taken : List Trail} {x : σ}, (∀ t ∈ trails, t.Within P) →
      (∀ t ∈ taken, t.Within P) → ∀ t ∈ (walkAll s visit fuel trails taken x).1, t.Within P := by
  induction fuel with
  | zero =>
    intro trails taken x _ htaken t ht
    exact htaken t (List.mem_reverse.mp ht)
  | succ fuel ih =>
    intro trails taken x htrails htaken
    cases trails with
    | nil =>
      intro t ht
      exact htaken t (List.mem_reverse.mp ht)
    | cons trail rest =>
      have hnone : ∀ t ∈ ([] : List Trail), t.Within P := by simp
      obtain ⟨hround, htaken'⟩ :=
        walkRound_within hs hstart visit (trail :: rest) (x := x) htrails hnone hnone htaken
      exact ih hround htaken'

theorem walk_within {σ : Type} (hs : s.Within P) (hstart : P .start) (v : Nat)
    (visit : σ → Trail → Visit × σ) (x : σ) : ∀ t ∈ (s.walk v visit x).1, t.Within P := by
  apply walkAll_within hs hstart
  · intro t ht
    rw [List.mem_singleton.mp ht]
    intro y hy
    cases hy
  · simp

def Slice.Within (P : Position → Prop) (slice : Slice) : Prop :=
  ∀ ts ∈ slice.trees, ∀ t ∈ ts, t.Within P

theorem Slice.Within.headD {slice : Slice} (h : slice.Within P) :
    ∀ t ∈ slice.trees.headD [], t.Within P := by
  intro t ht
  cases htrees : slice.trees with
  | nil =>
    rw [htrees] at ht
    cases ht
  | cons ts _ =>
    rw [htrees] at ht
    exact h ts (htrees ▸ List.mem_cons_self) t ht

/-- Slices with the stack that has their heads. -/
def SlicesWithin (P : Position → Prop) (r : List Slice × Stack) : Prop :=
  (∀ slice ∈ r.1, slice.Within P) ∧ r.2.Within P

theorem slice_within (hs : s.Within P) (v : Nat) {trails : List Trail}
    (htrails : ∀ t ∈ trails, t.Within P) : SlicesWithin P (s.slice v trails) := by
  have hgroups : ∀ r : List (Nat × Slice) × Stack, (∀ g ∈ r.1, g.2.Within P) ∧ r.2.Within P →
      SlicesWithin P (r.1.map (·.2), r.2) := by
    rintro ⟨groups, s'⟩ ⟨hgroups, hs'⟩
    refine ⟨?_, hs'⟩
    intro slice hslice
    obtain ⟨g, hg, rfl⟩ := List.mem_map.mp hslice
    exact hgroups g hg
  unfold Stack.slice
  apply hgroups
  apply List.foldlRecOn
    (motive := fun r : List (Nat × Slice) × Stack => (∀ g ∈ r.1, g.2.Within P) ∧ r.2.Within P)
  · refine ⟨?_, hs⟩
    simp
  · rintro ⟨groups, s'⟩ ⟨hgroups, hs'⟩ t ht
    have htrees := htrails t ht
    simp only
    split
    · -- the trail ends where another has ended
      refine ⟨?_, hs'⟩
      intro g hg
      obtain ⟨⟨n, old⟩, hold, rfl⟩ := List.mem_map.mp hg
      have hold' := hgroups (n, old) hold
      simp only
      split
      · intro ts hts
        rcases List.mem_append.mp hts with hts | hts
        · exact hold' ts hts
        · rw [List.mem_singleton.mp hts]
          exact htrees
      · exact hold'
    · constructor
      · intro g hg
        rcases List.mem_append.mp hg with hg | hg
        · exact hgroups g hg
        · rw [List.mem_singleton.mp hg]
          intro ts hts
          rw [List.mem_singleton.mp hts]
          exact htrees
      · apply hs'.withHeads
        intro x hx
        rcases List.mem_append.mp hx with hx | hx
        · exact hs'.heads x hx
        · rw [List.mem_singleton.mp hx]
          exact Head.within_active

theorem pop_within (hs : s.Within P) (hstart : P .start) (v count : Nat) :
    SlicesWithin P (s.pop v count) :=
  slice_within hs v (walk_within hs hstart v _ _)

theorem popAll_within (hs : s.Within P) (hstart : P .start) (v : Nat) :
    SlicesWithin P (s.popAll v) :=
  slice_within hs v (walk_within hs hstart v _ _)

theorem popError_within (hs : s.Within P) (hstart : P .start) (v : Nat) :
    SlicesWithin P (s.popError v) :=
  slice_within hs v (walk_within hs hstart v _ _)

end Stack

end DefectScan.Parse
