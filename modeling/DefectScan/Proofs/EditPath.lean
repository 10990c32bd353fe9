import DefectScan.Patch.Diff

/-!
# Differences as paths

A difference is a path through the edit graph, from one pair of places in the old and the new items
to another (`Path`). An equal step goes over equal items on both sides, a deletion goes on only in
the old items and an insertion only in the new ones. Steps that change places keep what they had of
the other side, so if there are both deletions and insertions, the place of a deletion in the new
items and that of an insertion in the old ones are left open.

Tidying moves, joins and swaps steps. It leaves a path a path and loses no kind of change:

    Path old new K 0 0 ops i j → Path old new K 0 0 (tidy old new ops) i j
-/

namespace DefectScan.Patch

variable {α : Type} [BEq α]

/-! ## Common ends -/

/-- The items from two places on are equal. -/
def SameRun (a b : Array α) (i j n : Nat) : Prop := ∀ k, k < n → sameAt a b (i + k) (j + k) = true

section

variable {a b : Array α}

theorem commonStart_le (i j n : Nat) : commonStart a b i j n ≤ n := by
  induction n generalizing i j with
  | zero => exact Nat.le_refl 0
  | succ n ih =>
    rw [commonStart]
    split
    · exact Nat.succ_le_succ (ih (i + 1) (j + 1))
    · exact Nat.zero_le _

theorem sameRun_commonStart (i j n : Nat) : SameRun a b i j (commonStart a b i j n) := by
  induction n generalizing i j with
  | zero =>
    intro k hk
    exact absurd hk (Nat.not_lt_zero k)
  | succ n ih =>
    rw [commonStart]
    split
    · next hsame =>
      intro k hk
      cases k with
      | zero => exact hsame
      | succ k =>
        have := ih (i + 1) (j + 1) k (by omega)
        rwa [show i + (k + 1) = i + 1 + k by omega, show j + (k + 1) = j + 1 + k by omega]
    · intro k hk
      exact absurd hk (Nat.not_lt_zero k)

/-- Where the common start ends early, the next items differ. -/
theorem sameAt_commonStart {i j n : Nat} (h : commonStart a b i j n < n) :
    sameAt a b (i + commonStart a b i j n) (j + commonStart a b i j n) = false := by
  induction n generalizing i j with
  | zero => exact absurd h (Nat.not_lt_zero _)
  | succ n ih =>
    rw [commonStart] at h ⊢
    split at h
    · next hsame =>
      rw [if_pos hsame]
      have := ih (i := i + 1) (j := j + 1) (by omega)
      rwa [show i + (commonStart a b (i + 1) (j + 1) n + 1)
          = i + 1 + commonStart a b (i + 1) (j + 1) n by omega,
        show j + (commonStart a b (i + 1) (j + 1) n + 1)
          = j + 1 + commonStart a b (i + 1) (j + 1) n by omega]
    · next hsame =>
      rw [if_neg hsame]
      simpa using hsame

theorem commonEnd_le (i j n : Nat) :
    commonEnd a b i j n ≤ n ∧ commonEnd a b i j n ≤ i ∧ commonEnd a b i j n ≤ j := by
  fun_induction commonEnd a b i j n with
  | case1 => omega
  | case2 => omega
  | case3 => omega
  | case4 i j n hsame ih => omega
  | case5 i j n hsame => omega

theorem sameRun_commonEnd (i j n : Nat) :
    SameRun a b (i - commonEnd a b i j n) (j - commonEnd a b i j n) (commonEnd a b i j n) := by
  fun_induction commonEnd a b i j n with
  | case1 =>
    intro k hk
    omega
  | case2 =>
    intro k hk
    omega
  | case3 =>
    intro k hk
    omega
  | case4 i j n hsame ih =>
    have hle := commonEnd_le (a := a) (b := b) i j n
    intro k hk
    rw [show i + 1 - (commonEnd a b i j n + 1) = i - commonEnd a b i j n by omega,
      show j + 1 - (commonEnd a b i j n + 1) = j - commonEnd a b i j n by omega]
    by_cases hlast : k = commonEnd a b i j n
    · subst hlast
      rwa [Nat.sub_add_cancel hle.2.1, Nat.sub_add_cancel hle.2.2]
    · exact ih k (by omega)
  | case5 =>
    intro k hk
    omega

/-- Where the common end begins late, the items before it differ. -/
theorem sameAt_commonEnd {i j n : Nat} (h : commonEnd a b i j n < n) (hi : commonEnd a b i j n < i)
    (hj : commonEnd a b i j n < j) :
    sameAt a b (i - commonEnd a b i j n - 1) (j - commonEnd a b i j n - 1) = false := by
  fun_induction commonEnd a b i j n with
  | case1 => omega
  | case2 => omega
  | case3 => omega
  | case4 i j n hsame ih =>
    have := ih (by omega) (by omega) (by omega)
    rwa [show i + 1 - (commonEnd a b i j n + 1) - 1 = i - commonEnd a b i j n - 1 by omega,
      show j + 1 - (commonEnd a b i j n + 1) - 1 = j - commonEnd a b i j n - 1 by omega]
  | case5 i j n hsame => simpa using hsame

theorem SameRun.append {i j m n : Nat} (h : SameRun a b i j m)
    (h' : SameRun a b (i + m) (j + m) n) :
    SameRun a b i j (m + n) := by
  intro k hk
  by_cases hm : k < m
  · exact h k hm
  · have := h' (k - m) (by omega)
    rwa [show i + m + (k - m) = i + k by omega, show j + m + (k - m) = j + k by omega] at this

theorem SameRun.mono {i j m n : Nat} (h : SameRun a b i j n) (hm : m ≤ n) : SameRun a b i j m :=
  fun k hk => h k (Nat.lt_of_lt_of_le hk hm)

theorem SameRun.drop {i j m n : Nat} (h : SameRun a b i j (m + n)) :
    SameRun a b (i + m) (j + m) n := by
  intro k hk
  have := h (m + k) (by omega)
  rwa [← Nat.add_assoc, ← Nat.add_assoc] at this

end

/-! ## Paths -/

/-- The steps lead from one pair of places to another. No step is empty, and the changes are of the
kinds `K`. -/
inductive Path (old new : Array α) (K : Tag → Prop) : Nat → Nat → List Op → Nat → Nat → Prop
  | nil (i j : Nat) : Path old new K i j [] i j
  | equal {i j n i' j' : Nat} {ops : List Op} (hpos : 0 < n) (hsame : SameRun old new i j n)
      (h : Path old new K (i + n) (j + n) ops i' j') :
      Path old new K i j (.equal i j n :: ops) i' j'
  | delete {i j n q i' j' : Nat} {ops : List Op} (hpos : 0 < n) (hkind : K .delete)
      (hplace : K .insert ∨ q = j) (h : Path old new K (i + n) j ops i' j') :
      Path old new K i j (.delete i n q :: ops) i' j'
  | insert {i j n p i' j' : Nat} {ops : List Op} (hpos : 0 < n) (hkind : K .insert)
      (hplace : K .delete ∨ p = i) (h : Path old new K i (j + n) ops i' j') :
      Path old new K i j (.insert p j n :: ops) i' j'

namespace Path

variable {old new : Array α} {K : Tag → Prop}

theorem append {i j p q i' j' : Nat} {xs ys : List Op} (h : Path old new K i j xs p q)
    (h' : Path old new K p q ys i' j') : Path old new K i j (xs ++ ys) i' j' := by
  induction h with
  | nil => exact h'
  | equal hpos hsame _ ih => exact .equal hpos hsame (ih h')
  | delete hpos hkind hplace _ ih => exact .delete hpos hkind hplace (ih h')
  | insert hpos hkind hplace _ ih => exact .insert hpos hkind hplace (ih h')

theorem of_append {i j i' j' : Nat} {xs ys : List Op} (h : Path old new K i j (xs ++ ys) i' j') :
    ∃ p q, Path old new K i j xs p q ∧ Path old new K p q ys i' j' := by
  induction xs generalizing i j with
  | nil => exact ⟨i, j, .nil i j, h⟩
  | cons x xs ih =>
    cases h with
    | equal hpos hsame h =>
      obtain ⟨p, q, hx, hy⟩ := ih h
      exact ⟨p, q, .equal hpos hsame hx, hy⟩
    | delete hpos hkind hplace h =>
      obtain ⟨p, q, hx, hy⟩ := ih h
      exact ⟨p, q, .delete hpos hkind hplace hx, hy⟩
    | insert hpos hkind hplace h =>
      obtain ⟨p, q, hx, hy⟩ := ih h
      exact ⟨p, q, .insert hpos hkind hplace hx, hy⟩

theorem mono {K' : Tag → Prop} {i j i' j' : Nat} {ops : List Op} (h : Path old new K i j ops i' j')
    (hdelete : K .delete → K' .delete) (hinsert : K .insert → K' .insert) :
    Path old new K' i j ops i' j' := by
  induction h with
  | nil => exact .nil _ _
  | equal hpos hsame _ ih => exact .equal hpos hsame ih
  | delete hpos hkind hplace _ ih =>
    exact .delete hpos (hdelete hkind) (hplace.imp_left hinsert) ih
  | insert hpos hkind hplace _ ih =>
    exact .insert hpos (hinsert hkind) (hplace.imp_left hdelete) ih

theorem cons_equal {i j i' j' : Nat} {o : Op} {ops : List Op}
    (h : Path old new K i j (o :: ops) i' j') (ht : o.tag = .equal) :
    ∃ n, 0 < n ∧ o = .equal i j n ∧ SameRun old new i j n ∧
      Path old new K (i + n) (j + n) ops i' j' := by
  cases h with
  | equal hpos hsame h => exact ⟨_, hpos, rfl, hsame, h⟩
  | delete => cases ht
  | insert => cases ht

theorem cons_delete {i j i' j' : Nat} {o : Op} {ops : List Op}
    (h : Path old new K i j (o :: ops) i' j') (ht : o.tag = .delete) :
    ∃ n q, 0 < n ∧ K .delete ∧ (K .insert ∨ q = j) ∧ o = .delete i n q ∧
      Path old new K (i + n) j ops i' j' := by
  cases h with
  | equal => cases ht
  | delete hpos hkind hplace h => exact ⟨_, _, hpos, hkind, hplace, rfl, h⟩
  | insert => cases ht

theorem cons_insert {i j i' j' : Nat} {o : Op} {ops : List Op}
    (h : Path old new K i j (o :: ops) i' j') (ht : o.tag = .insert) :
    ∃ n p, 0 < n ∧ K .insert ∧ (K .delete ∨ p = i) ∧ o = .insert p j n ∧
      Path old new K i (j + n) ops i' j' := by
  cases h with
  | equal => cases ht
  | delete => cases ht
  | insert hpos hkind hplace h => exact ⟨_, _, hpos, hkind, hplace, rfl, h⟩

end Path

/-! ## Places in a list of steps -/

section

variable {β : Type} (pre xs : List β) (n : Nat)

theorem modify_append_add (f : β → β) :
    (pre ++ xs).modify (pre.length + n) f = pre ++ xs.modify n f := by
  induction pre with
  | nil => simp
  | cons x pre ih => simp [Nat.add_right_comm, ih]

theorem eraseIdx_append_add : (pre ++ xs).eraseIdx (pre.length + n) = pre ++ xs.eraseIdx n := by
  induction pre with
  | nil => simp
  | cons x pre ih => simp [Nat.add_right_comm, ih]

theorem insertIdx_append_add (x : β) :
    (pre ++ xs).insertIdx (pre.length + n) x = pre ++ xs.insertIdx n x := by
  induction pre with
  | nil => simp
  | cons y pre ih => simp [Nat.add_right_comm, ih]

theorem set_append_add (x : β) : (pre ++ xs).set (pre.length + n) x = pre ++ xs.set n x := by
  induction pre with
  | nil => simp
  | cons y pre ih => simp [Nat.add_right_comm, ih]

theorem getElem?_append_add : (pre ++ xs)[pre.length + n]? = xs[n]? := by
  rw [List.getElem?_append_right (Nat.le_add_right _ _), Nat.add_sub_cancel_left]

end

theorem opAt_append_add (pre xs : List Op) (n : Nat) :
    opAt (pre ++ xs) (pre.length + n) = opAt xs n := by
  rw [opAt, opAt, List.getD_eq_getElem?_getD, List.getD_eq_getElem?_getD, getElem?_append_add]

theorem tagAt?_append_add (pre xs : List Op) (n : Nat) :
    tagAt? (pre ++ xs) (pre.length + n) = tagAt? xs n := by
  rw [tagAt?, tagAt?, getElem?_append_add]

theorem eraseIdx_lengthen (pre post : List Op) (x y : Op) (n : Nat) :
    ((pre ++ x :: y :: post).modify pre.length (·.lengthen n)).eraseIdx (pre.length + 1)
      = pre ++ x.lengthen n :: post := by
  rw [show (pre ++ x :: y :: post).modify pre.length (·.lengthen n)
    = pre ++ x.lengthen n :: y :: post from modify_append_add pre _ 0 _]
  exact eraseIdx_append_add pre _ 1

theorem set_swap (pre post : List Op) (x y : Op) :
    ((pre ++ x :: y :: post).set pre.length y).set (pre.length + 1) x = pre ++ y :: x :: post := by
  rw [show (pre ++ x :: y :: post).set pre.length y = pre ++ y :: y :: post
    from set_append_add pre _ 0 _]
  exact set_append_add pre _ 1 _

/-! ## Moving a step -/

/-- Each of the kinds of changes occurs among the steps. -/
def Full (K : Tag → Prop) (ops : List Op) : Prop := ∀ t, t ≠ .equal → K t → t ∈ ops.map (·.tag)

/-- A path with all kinds of changes, and a place in it at which a step of some kind stands. -/
structure Path.Holds (old new : Array α) (K : Tag → Prop) (i j : Nat) (tag : Tag)
    (r : List Op × Nat) : Prop where
  path : Path old new K 0 0 r.1 i j
  full : Full K r.1
  placed : ∃ pre o post, r = (pre ++ o :: post, pre.length) ∧ o.tag = tag

section

variable {old new : Array α} {K : Tag → Prop} {i' j' : Nat} {tag : Tag}

theorem Full.append_of_subset {pre pre' xs ys : List Op} (h : Full K (pre ++ xs))
    (hpre : ∀ t, t ∈ pre.map (·.tag) → t ∈ pre'.map (·.tag))
    (hsub : ∀ t, t ≠ .equal → t ∈ xs.map (·.tag) → t ∈ ys.map (·.tag)) : Full K (pre' ++ ys) := by
  intro t ht hK
  have := h t ht hK
  rw [List.map_append, List.mem_append] at this ⊢
  exact this.imp (hpre t) (hsub t ht)

theorem Path.Holds.of_append {pre post : List Op} {o : Op} {n : Nat} {p q : Nat}
    (hpre : Path old new K 0 0 pre p q) (hpost : Path old new K p q (o :: post) i' j')
    (hfull : Full K (pre ++ o :: post)) (ht : o.tag = tag) (hn : n = pre.length) :
    Path.Holds old new K i' j' tag (pre ++ o :: post, n) :=
  ⟨hpre.append hpost, hfull, pre, o, post, by rw [hn], ht⟩

@[simp] theorem Op.isEmpty_equal (i j n : Nat) : (Op.equal i j n).isEmpty = decide (n = 0) :=
  Bool.and_self _

@[simp] theorem Op.tag_lengthen (n : Nat) (o : Op) : (o.lengthen n).tag = o.tag := by
  unfold Op.lengthen
  split <;> rfl

theorem Full.join {pre post : List Op} {x y : Op} (n : Nat) (h : Full K (pre ++ x :: y :: post))
    (hxy : x.tag = y.tag) : Full K (pre ++ x.lengthen n :: post) := by
  refine h.append_of_subset (fun _ => id) ?_
  intro t _ hmem
  rw [List.map_cons, List.map_cons, ← hxy] at hmem
  rw [List.map_cons, Op.tag_lengthen]
  exact (List.mem_cons.1 hmem).elim (fun h => h ▸ List.mem_cons_self) id

theorem Full.swap {pre post : List Op} {x y : Op} (h : Full K (pre ++ x :: y :: post)) :
    Full K (pre ++ y :: x :: post) :=
  h.append_of_subset (fun _ => id) fun _ _ =>
    ((List.Perm.swap y x post).map (·.tag)).mem_iff.1

theorem Path.join {p q : Nat} {x y : Op} {post : List Op}
    (h : Path old new K p q (x :: y :: post) i' j') (hx : x.tag ≠ .equal) (hxy : x.tag = y.tag) :
    Path old new K p q
      (x.lengthen (if y.tag = .insert then y.newLength else y.oldLength) :: post) i' j' := by
  cases h with
  | equal => exact absurd rfl hx
  | delete hn hkind hplace h =>
    obtain ⟨m, _, hm, -, -, rfl, h⟩ := h.cons_delete hxy.symm
    refine Path.delete (n := _ + m) (by omega) hkind hplace ?_
    rwa [← Nat.add_assoc]
  | insert hn hkind hplace h =>
    obtain ⟨m, _, hm, -, -, rfl, h⟩ := h.cons_insert hxy.symm
    refine Path.insert (n := _ + m) (by omega) hkind hplace ?_
    rwa [← Nat.add_assoc]

/-- A deletion and an insertion go on in different directions, so their order is free. Each loses
its place on the other side. -/
theorem Path.swap {p q : Nat} {x y : Op} {post : List Op}
    (h : Path old new K p q (x :: y :: post) i' j') (hx : x.tag ≠ .equal) (hy : y.tag ≠ .equal)
    (hxy : x.tag ≠ y.tag) : Path old new K p q (y :: x :: post) i' j' := by
  cases h with
  | equal => exact absurd rfl hx
  | delete hn hdelete _ h =>
    cases h with
    | equal => exact absurd rfl hy
    | delete => exact absurd rfl hxy
    | insert hm hinsert _ h =>
      exact .insert hm hinsert (.inl hdelete) (.delete hn hdelete (.inl hinsert) h)
  | insert hn hinsert _ h =>
    cases h with
    | equal => exact absurd rfl hy
    | insert => exact absurd rfl hxy
    | delete hm hdelete _ h =>
      exact .delete hm hdelete (.inl hinsert) (.insert hn hinsert (.inl hdelete) h)

@[simp] theorem Op.shorten_equal (i j n k : Nat) :
    (Op.equal i j n).shorten k = .equal i j (n - k) := rfl

@[simp] theorem Op.moveDown_equal (i j n k : Nat) :
    (Op.equal i j n).moveDown k = .equal (i + k) (j + k) n := rfl

/-- The steps behind an insertion that has been moved up over `n` equal items. -/
def grownBehind (n i j : Nat) (post : List Op) : List Op :=
  if tagAt? post 0 = some .equal then post.modify 0 fun o => (o.moveUp n).lengthen n
  else .equal i j n :: post

theorem Path.grownBehind {p q k : Nat} {post : List Op} (hk : 0 < k) (hp : k ≤ p) (hq : k ≤ q)
    (hsame : SameRun old new (p - k) (q - k) k) (h : Path old new K p q post i' j') :
    Path old new K (p - k) (q - k) (grownBehind k (p - k) (q - k) post) i' j' := by
  unfold Patch.grownBehind
  split
  · next ht =>
    obtain _ | ⟨o, post⟩ := post
    · cases ht
    · obtain ⟨r, hr, rfl, hrun, hrest⟩ := h.cons_equal (Option.some.inj ht)
      have hnew : (((Op.equal p q r).moveUp k).lengthen k) = .equal (p - k) (q - k) (r + k) := rfl
      show Path old new K _ _ (((Op.equal p q r).moveUp k).lengthen k :: post) i' j'
      rw [hnew, Nat.add_comm r k]
      refine .equal (by omega) (hsame.append ?_) ?_
      · rwa [Nat.sub_add_cancel hp, Nat.sub_add_cancel hq]
      · rwa [← Nat.add_assoc, ← Nat.add_assoc, Nat.sub_add_cancel hp, Nat.sub_add_cancel hq]
  · refine .equal hk hsame ?_
    rwa [Nat.sub_add_cancel hp, Nat.sub_add_cancel hq]

theorem mem_tags_grownBehind {t : Tag} {post : List Op} (n i j : Nat)
    (h : t ∈ post.map (·.tag)) : t ∈ (grownBehind n i j post).map (·.tag) := by
  unfold Patch.grownBehind
  split
  · obtain _ | ⟨o, post⟩ := post
    · cases h
    · simpa [Op.moveUp] using h
  · exact List.mem_cons_of_mem _ h

theorem tag_of_roomAbove {above here : Op} (h : 0 < roomAbove old new above here) :
    here.tag = .insert := by
  unfold roomAbove at h
  split at h
  · next ht => exact ht
  · exact absurd h (Nat.lt_irrefl 0)

theorem roomAbove_insert (old new : Array α) (p q n c m : Nat) :
    let k := roomAbove old new (.equal p q n) (.insert c (q + n) m)
    k ≤ n ∧ SameRun old new (p + n - k) (q + n + m - k) k := by
  have hle := commonEnd_le (a := old) (b := new) (p + n) (q + n + m) (min n m)
  have hrun := sameRun_commonEnd (a := old) (b := new) (p + n) (q + n + m) (min n m)
  exact ⟨Nat.le_trans hle.1 (Nat.min_le_left n m), hrun⟩

/-- What moving up does to the step before the one that moves, and to the steps behind it. -/
theorem shiftUp_append (fuel : Nat) (pre post : List Op) (above here : Op) :
    shiftUp old new (fuel + 1) (pre ++ above :: here :: post) (pre.length + 1) =
      if above.tag = .equal then
        let n := roomAbove old new above here
        if 0 < n then
          let behind := grownBehind n (above.oldStop - n) (here.newStop - n) post
          if (above.shorten n).isEmpty then
            shiftUp old new fuel (pre ++ here.moveUp n :: behind) pre.length
          else shiftUp old new fuel (pre ++ above.shorten n :: here.moveUp n :: behind)
            (pre.length + 1)
        else if above.isEmpty then shiftUp old new fuel (pre ++ here :: post) pre.length
        else (pre ++ above :: here :: post, pre.length + 1)
      else if above.tag = here.tag then
        shiftUp old new fuel (pre ++ above.lengthen
          (if here.tag = .insert then here.newLength else here.oldLength) :: post) pre.length
      else shiftUp old new fuel (pre ++ here :: above :: post) pre.length := by
  -- the definition changes the steps by their numbers: each of its changes, read behind `pre`
  have h1 : opAt (pre ++ above :: here :: post) (pre.length + 1) = here := opAt_append_add pre _ 1
  have h2 : tagAt? (pre ++ above :: here :: post) (pre.length + 2) = tagAt? post 0 :=
    tagAt?_append_add pre _ 2
  have herase : ∀ x xs, (pre ++ x :: xs).eraseIdx pre.length = pre ++ xs :=
    fun x xs => eraseIdx_append_add pre (x :: xs) 0
  have hbehind : ∀ n, (if tagAt? post 0 = some .equal then
        (pre ++ above :: here :: post).modify (pre.length + 2) fun o => (o.moveUp n).lengthen n
      else (pre ++ above :: here :: post).insertIdx (pre.length + 2)
        (.equal (above.oldStop - n) (here.newStop - n) n))
      = pre ++ above :: here :: grownBehind n (above.oldStop - n) (here.newStop - n) post := by
    intro n
    rw [modify_append_add, insertIdx_append_add, grownBehind]
    split <;> rfl
  have hslid : ∀ n xs, ((pre ++ above :: here :: xs).modify (pre.length + 1) (·.moveUp n)).modify
      pre.length (·.shorten n) = pre ++ above.shorten n :: here.moveUp n :: xs := by
    intro n xs
    rw [modify_append_add]
    exact modify_append_add pre _ 0 _
  have hfirst : ∀ x xs, opAt (pre ++ x :: xs) pre.length = x := fun x xs => opAt_append_add pre _ 0
  rw [shiftUp]
  simp only [h1, h2, hbehind, hslid, hfirst, herase, eraseIdx_lengthen, set_swap]

/-- An insertion slides up over `k` equal items, and takes the place of the step over them if no
item of it is left. -/
theorem slideUp_holds {pre post : List Op} {p q n c m k : Nat} (hpre : Path old new K 0 0 pre p q)
    (hrun : SameRun old new p q n) (hm : 0 < m) (hkind : K .insert)
    (hplace : K .delete ∨ c = p + n) (hpost : Path old new K (p + n) (q + n + m) post i' j')
    (hfull : Full K (pre ++ .equal p q n :: .insert c (q + n) m :: post)) (hk : 0 < k) (hkn : k ≤ n)
    (hsame : SameRun old new (p + n - k) (q + n + m - k) k) :
    let moved := .insert (c - k) (q + n - k) m :: grownBehind k (p + n - k) (q + n + m - k) post
    (n - k = 0 → Path.Holds old new K i' j' .insert (pre ++ moved, pre.length)) ∧
      (n - k ≠ 0 → Path.Holds old new K i' j' .insert
        (pre ++ .equal p q (n - k) :: moved, pre.length + 1)) := by
  intro moved
  have hmoved : Path old new K (p + (n - k)) (q + (n - k)) moved i' j' := by
    have hbehind := hpost.grownBehind hk (by omega) (by omega) hsame
    show Path old new K _ _ (.insert (c - k) (q + n - k) m :: _) i' j'
    rw [show p + (n - k) = p + n - k by omega, show q + (n - k) = q + n - k by omega]
    refine .insert hm hkind (hplace.imp_right (by omega)) ?_
    rwa [show q + n - k + m = q + n + m - k by omega]
  have htags : ∀ t, t ≠ .equal →
      t ∈ (Op.equal p q n :: .insert c (q + n) m :: post).map (·.tag) → t ∈ moved.map (·.tag) := by
    intro t ht hmem
    rcases List.mem_cons.1 hmem with rfl | hmem
    · exact absurd rfl ht
    · rcases List.mem_cons.1 hmem with rfl | hmem
      · exact List.mem_cons_self
      · exact List.mem_cons_of_mem _ (mem_tags_grownBehind k _ _ hmem)
  constructor
  · intro hnk
    rw [hnk] at hmoved
    exact .of_append hpre hmoved (hfull.append_of_subset (fun _ => id) htags) rfl rfl
  · intro hnk
    have hequal := Path.equal (Nat.pos_of_ne_zero hnk) (hrun.mono (Nat.sub_le n k)) hmoved
    refine ⟨hpre.append hequal, hfull.append_of_subset (fun _ => id) ?_,
      pre ++ [.equal p q (n - k)], .insert (c - k) (q + n - k) m, _, by simp [moved]; rfl, rfl⟩
    exact fun t ht hmem => List.mem_cons_of_mem _ (htags t ht hmem)

theorem shiftUp_holds (htag : tag ≠ .equal) (fuel : Nat) (ops : List Op) (i : Nat)
    (h : Path.Holds old new K i' j' tag (ops, i)) :
    Path.Holds old new K i' j' tag (shiftUp old new fuel ops i) := by
  induction fuel generalizing ops i with
  | zero => exact h
  | succ fuel ih =>
    obtain ⟨hpath, hfull, pre, here, post, heq, hhere⟩ := h
    obtain ⟨rfl, rfl⟩ := Prod.mk.inj heq
    rcases List.eq_nil_or_concat pre with rfl | ⟨pre, above, rfl⟩
    · exact ⟨hpath, hfull, [], here, post, rfl, hhere⟩
    · simp only [List.concat_eq_append, List.append_assoc, List.singleton_append,
        List.length_append, List.length_singleton] at hpath hfull ⊢
      obtain ⟨p, q, hpre, hrest⟩ := hpath.of_append
      rw [shiftUp_append]
      simp only
      split
      · next habove =>
        -- only an insertion has room to slide up over equal items, and as no step is empty a step with
        -- no room stays where it is
        obtain ⟨n, hn, rfl, hrun, hhereOn⟩ := hrest.cons_equal habove
        split
        · next hroom =>
          obtain ⟨m, c, hm, hkind, hplace, rfl, hpost⟩ :=
            hhereOn.cons_insert (tag_of_roomAbove hroom)
          obtain ⟨hkn, hsame⟩ := roomAbove_insert old new p q n c m
          obtain ⟨hgone, hleft⟩ :=
            slideUp_holds hpre hrun hm hkind hplace hpost hfull hroom hkn hsame
          subst hhere
          simp only [Op.shorten_equal, Op.isEmpty_equal, decide_eq_true_eq]
          split
          · next hnk => exact ih _ _ (hgone hnk)
          · next hnk => exact ih _ _ (hleft hnk)
        · rw [if_neg (by simp; omega)]
          exact ⟨hpath, hfull, pre ++ [.equal p q n], here, post, by simp, hhere⟩
      · next habove =>
        split
        · next hjoin =>
          refine ih _ _ (.of_append hpre (hrest.join habove hjoin) (hfull.join _ hjoin) ?_ rfl)
          rw [Op.tag_lengthen, hjoin, hhere]
        · next hne =>
          have hswapped := hrest.swap habove (hhere ▸ htag) hne
          exact ih _ _ (.of_append hpre hswapped hfull.swap hhere rfl)

/-- The steps before an insertion that has been moved down over `n` equal items. -/
def grownBefore (n i j : Nat) (pre : List Op) : List Op :=
  if 0 < pre.length && tagAt? pre (pre.length - 1) = some .equal then
    pre.modify (pre.length - 1) (·.lengthen n)
  else pre ++ [.equal i j n]

theorem Path.grownBefore {pre : List Op} {p q k : Nat} (hpre : Path old new K 0 0 pre p q)
    (hk : 0 < k) (hsame : SameRun old new p q k) :
    Path old new K 0 0 (grownBefore k p q pre) (p + k) (q + k) := by
  have hnew : Path old new K p q [.equal p q k] (p + k) (q + k) := .equal hk hsame (.nil _ _)
  unfold Patch.grownBefore
  split
  · next hlast =>
    simp only [Bool.and_eq_true, decide_eq_true_eq] at hlast
    rcases List.eq_nil_or_concat pre with rfl | ⟨pre, o, rfl⟩
    · exact absurd hlast.1 (Nat.lt_irrefl 0)
    · simp only [List.concat_eq_append, List.length_append, List.length_singleton,
        Nat.add_sub_cancel] at hpre hlast ⊢
      have htag : some o.tag = some .equal := (tagAt?_append_add pre [o] 0).symm.trans hlast.2
      obtain ⟨i, j, hfirst, ho⟩ := hpre.of_append
      obtain ⟨n, hn, rfl, hrun, hnil⟩ := ho.cons_equal (Option.some.inj htag)
      cases hnil
      rw [show (pre ++ [Op.equal i j n]).modify pre.length (·.lengthen k)
        = pre ++ [.equal i j (n + k)] from modify_append_add pre _ 0 _]
      refine hfirst.append (.equal (by omega) (hrun.append hsame) ?_)
      rw [Nat.add_assoc, Nat.add_assoc]
      exact .nil _ _
  · exact hpre.append hnew

theorem mem_tags_grownBefore {t : Tag} {pre : List Op} (n i j : Nat)
    (h : t ∈ pre.map (·.tag)) : t ∈ (grownBefore n i j pre).map (·.tag) := by
  unfold grownBefore
  split
  · rcases List.eq_nil_or_concat pre with rfl | ⟨pre, o, rfl⟩
    · cases h
    · simp only [List.concat_eq_append, List.length_append, List.length_singleton,
        Nat.add_sub_cancel] at h ⊢
      rw [show (pre ++ [o]).modify pre.length (·.lengthen n) = pre ++ [o.lengthen n]
        from modify_append_add pre _ 0 _]
      simpa using h
  · rw [List.map_append]
    exact List.mem_append_left _ h

theorem tag_of_roomBelow {below here : Op} (h : 0 < roomBelow old new below here) :
    here.tag = .insert := by
  unfold roomBelow at h
  split at h
  · next ht => exact ht
  · exact absurd h (Nat.lt_irrefl 0)

theorem roomBelow_insert (old new : Array α) (p q n c m : Nat) :
    let k := roomBelow old new (.equal p (q + m) n) (.insert c q m)
    k ≤ n ∧ SameRun old new p q k :=
  ⟨Nat.le_trans (commonStart_le _ _ _) (Nat.min_le_left n m), sameRun_commonStart _ _ _⟩

/-- What moving down does to the step behind the one that moves, and to the steps before it. -/
theorem shiftDown_append (fuel : Nat) (pre post : List Op) (here below : Op) :
    shiftDown old new (fuel + 1) (pre ++ here :: below :: post) pre.length =
      if below.tag = .equal then
        let n := roomBelow old new below here
        let before := grownBefore n below.old here.new pre
        if 0 < n then
          if ((below.moveDown n).shorten n).isEmpty then
            shiftDown old new fuel (before ++ here.moveDown n :: post) before.length
          else shiftDown old new fuel
            (before ++ here.moveDown n :: (below.moveDown n).shorten n :: post) before.length
        else if below.isEmpty then shiftDown old new fuel (pre ++ here :: post) pre.length
        else (pre ++ here :: below :: post, pre.length)
      else if below.tag = here.tag then
        shiftDown old new fuel (pre ++ here.lengthen
          (if here.tag = .insert then below.newLength else below.oldLength) :: post) pre.length
      else shiftDown old new fuel (pre ++ below :: here :: post) (pre.length + 1) := by
  -- as for moving up, but the place of the step itself may move with those before it
  have h1 : (pre ++ here :: below :: post)[pre.length + 1]? = some below :=
    getElem?_append_add pre _ 1
  have hhere : opAt (pre ++ here :: below :: post) pre.length = here := opAt_append_add pre _ 0
  have herase : ∀ (xs : List Op) x y ys,
      (xs ++ x :: y :: ys).eraseIdx (xs.length + 1) = xs ++ x :: ys :=
    fun xs x y ys => eraseIdx_append_add xs (x :: y :: ys) 1
  have hsecond : ∀ (xs : List Op) x y ys, opAt (xs ++ x :: y :: ys) (xs.length + 1) = y :=
    fun xs x y ys => opAt_append_add xs _ 1
  have hbefore : ∀ n, (if 0 < pre.length && tagAt? (pre ++ here :: below :: post) (pre.length - 1)
        = some .equal then
        ((pre ++ here :: below :: post).modify (pre.length - 1) (·.lengthen n), pre.length)
      else ((pre ++ here :: below :: post).insertIdx pre.length (.equal below.old here.new n),
        pre.length + 1))
      = (grownBefore n below.old here.new pre ++ here :: below :: post,
        (grownBefore n below.old here.new pre).length) := by
    intro n
    rcases List.eq_nil_or_concat pre with rfl | ⟨pre, o, rfl⟩
    · rfl
    · have hlast : ∀ xs, tagAt? (pre ++ o :: xs) pre.length = some o.tag :=
        fun xs => tagAt?_append_add pre _ 0
      have hmodify : ∀ xs, (pre ++ o :: xs).modify pre.length (·.lengthen n)
          = pre ++ o.lengthen n :: xs := fun xs => modify_append_add pre _ 0 _
      have hinsert : (pre ++ o :: here :: below :: post).insertIdx (pre.length + 1)
          (.equal below.old here.new n)
          = pre ++ o :: .equal below.old here.new n :: here :: below :: post :=
        insertIdx_append_add pre _ 1 _
      simp only [grownBefore, List.concat_eq_append, List.length_append, List.length_singleton,
        Nat.add_sub_cancel, List.append_assoc, List.singleton_append, hlast, hmodify, hinsert]
      split <;> simp
  have hslid : ∀ n (xs : List Op),
      ((xs ++ here :: below :: post).modify xs.length (·.moveDown n)).modify (xs.length + 1)
        (fun o => (o.moveDown n).shorten n)
      = xs ++ here.moveDown n :: (below.moveDown n).shorten n :: post := by
    intro n xs
    rw [show (xs ++ here :: below :: post).modify xs.length (·.moveDown n)
      = xs ++ here.moveDown n :: below :: post from modify_append_add xs _ 0 _]
    exact modify_append_add xs _ 1 _
  rw [shiftDown]
  simp only [h1, hhere, hbefore, hslid, hsecond, herase, eraseIdx_lengthen, set_swap]

/-- An insertion slides down over `k` equal items, and takes the place of the step over them if no
item of it is left. -/
theorem slideDown_holds {pre post : List Op} {p q n c m k : Nat}
    (hpre : Path old new K 0 0 pre p q) (hm : 0 < m) (hkind : K .insert)
    (hplace : K .delete ∨ c = p) (hrun : SameRun old new p (q + m) n)
    (hpost : Path old new K (p + n) (q + m + n) post i' j')
    (hfull : Full K (pre ++ .insert c q m :: .equal p (q + m) n :: post)) (hk : 0 < k) (hkn : k ≤ n)
    (hsame : SameRun old new p q k) :
    let before := grownBefore k p q pre
    (n - k = 0 → Path.Holds old new K i' j' .insert
      (before ++ .insert (c + k) (q + k) m :: post, before.length)) ∧
      (n - k ≠ 0 → Path.Holds old new K i' j' .insert
        (before ++ .insert (c + k) (q + k) m :: .equal (p + k) (q + m + k) (n - k) :: post,
          before.length)) := by
  intro before
  have hbefore : Path old new K 0 0 before (p + k) (q + k) := hpre.grownBefore hk hsame
  have hplace' : K .delete ∨ c + k = p + k := hplace.imp_right (by omega)
  have htags : ∀ t, t ∈ pre.map (·.tag) → t ∈ before.map (·.tag) :=
    fun t => mem_tags_grownBefore k p q
  have hends : p + n = p + k + (n - k) ∧ q + m + n = q + k + m + (n - k) := by omega
  rw [hends.1, hends.2] at hpost
  constructor
  · intro hnk
    rw [hnk] at hpost
    have hmoved := Path.insert hm hkind hplace' hpost
    refine .of_append hbefore hmoved (hfull.append_of_subset htags ?_) rfl rfl
    intro t ht hmem
    rcases List.mem_cons.1 hmem with rfl | hmem
    · exact List.mem_cons_self
    · exact List.mem_cons_of_mem _ ((List.mem_cons.1 hmem).resolve_left ht)
  · intro hnk
    have hleft : SameRun old new (p + k) (q + m + k) (n - k) :=
      SameRun.drop (by rwa [Nat.add_sub_cancel' hkn])
    rw [Nat.add_right_comm q m k] at hleft ⊢
    have hequal := Path.equal (Nat.pos_of_ne_zero hnk) hleft hpost
    have hmoved := Path.insert hm hkind hplace' hequal
    exact .of_append hbefore hmoved (hfull.append_of_subset htags fun _ _ => id) rfl rfl

theorem shiftDown_holds (htag : tag ≠ .equal) (fuel : Nat) (ops : List Op) (i : Nat)
    (h : Path.Holds old new K i' j' tag (ops, i)) :
    Path.Holds old new K i' j' tag (shiftDown old new fuel ops i) := by
  induction fuel generalizing ops i with
  | zero => exact h
  | succ fuel ih =>
    obtain ⟨hpath, hfull, pre, here, post, heq, hhere⟩ := h
    obtain ⟨rfl, rfl⟩ := Prod.mk.inj heq
    obtain _ | ⟨below, post⟩ := post
    · rw [shiftDown, show (pre ++ [here])[pre.length + 1]? = none from getElem?_append_add pre _ 1]
      exact ⟨hpath, hfull, pre, here, [], rfl, hhere⟩
    · obtain ⟨p, q, hpre, hrest⟩ := hpath.of_append
      rw [shiftDown_append]
      simp only
      split
      · next hbelow =>
        split
        · next hroom =>
          obtain ⟨m, c, hm, hkind, hplace, rfl, hafter⟩ :=
            hrest.cons_insert (tag_of_roomBelow hroom)
          obtain ⟨n, hn, rfl, hrun, hpost⟩ := hafter.cons_equal hbelow
          obtain ⟨hkn, hsame⟩ := roomBelow_insert old new p q n c m
          obtain ⟨hgone, hleft⟩ :=
            slideDown_holds hpre hm hkind hplace hrun hpost hfull hroom hkn hsame
          subst hhere
          simp only [Op.moveDown_equal, Op.shorten_equal, Op.isEmpty_equal, decide_eq_true_eq]
          split
          · next hnk => exact ih _ _ (hgone hnk)
          · next hnk => exact ih _ _ (hleft hnk)
        · rw [← List.singleton_append] at hrest
          obtain ⟨p', q', -, hafter⟩ := hrest.of_append
          obtain ⟨n, hn, rfl, -, -⟩ := hafter.cons_equal hbelow
          rw [if_neg (by simp; omega)]
          exact ⟨hpath, hfull, pre, here, _, rfl, hhere⟩
      · next hbelow =>
        have hne : here.tag ≠ .equal := hhere ▸ htag
        split
        · next hjoin =>
          have hjoined := hrest.join hne hjoin.symm
          rw [hjoin] at hjoined
          exact ih _ _ (.of_append hpre hjoined (hfull.join _ hjoin.symm)
            ((Op.tag_lengthen _ _).trans hhere) rfl)
        · next hswap =>
          have hswapped := hrest.swap hne hbelow (Ne.symm hswap)
          exact ih _ _
            ⟨hpre.append hswapped, hfull.swap, pre ++ [below], here, post, by simp, hhere⟩

theorem tidyTag_path (htag : tag ≠ .equal) (fuel : Nat) (ops : List Op) (i : Nat)
    (h : Path old new K 0 0 ops i' j') (hfull : Full K ops) :
    Path old new K 0 0 (tidyTag old new tag fuel ops i) i' j' ∧
      Full K (tidyTag old new tag fuel ops i) := by
  induction fuel generalizing ops i with
  | zero => exact ⟨h, hfull⟩
  | succ fuel ih =>
    rw [tidyTag]
    split
    · exact ⟨h, hfull⟩
    · next o ho =>
      split
      · next ht =>
        obtain ⟨hi, hoi⟩ := List.getElem?_eq_some_iff.1 ho
        have hholds : Path.Holds old new K i' j' tag (ops, i) := by
          refine ⟨h, hfull, ops.take i, o, ops.drop (i + 1), ?_, ht⟩
          rw [← hoi, ← List.drop_eq_getElem_cons hi, List.take_append_drop, List.length_take,
            Nat.min_eq_left (Nat.le_of_lt hi)]
        simp only
        generalize 4 * (old.size + new.size) + 4 * ops.length + 4 = bound
        have hup := shiftUp_holds htag bound ops i hholds
        have hdown := shiftDown_holds htag bound _ _ hup
        exact ih _ _ hdown.path hdown.full
      · exact ih _ _ h hfull

/-- Tidying leaves a path a path, between the same places, with the same kinds of changes. -/
theorem Path.tidy {ops : List Op} (h : Path old new K 0 0 ops i' j') (hfull : Full K ops) :
    Path old new K 0 0 (tidy old new ops) i' j' ∧ Full K (tidy old new ops) := by
  obtain ⟨hpath, hkinds⟩ := tidyTag_path (show Tag.delete ≠ .equal by decide) _ _ 0 h hfull
  exact tidyTag_path (by decide) _ _ _ hpath hkinds

end

end DefectScan.Patch
