import Mathlib.Data.List.Chain
import DefectScan.Patch.Unified
import DefectScan.Proofs.EditPath

/-!
# Stretches and hunks

The steps of a path are gathered into stretches, which are equal and changed in turn (`Alternating`)
and lead to where the path leads (`Cut`). If there are both deletions and insertions, a stretch of
deletions alone need not know its place in the new items, nor one of insertions alone its place in
the old ones.

The stretches are then cut at long runs of equal items into hunks (`Hunked`): between two hunks
stand equal items that neither shows, and a hunk shows few equal items at its ends and between its
changes (`Tight`).
-/

namespace DefectScan.Patch

variable {α : Type} [BEq α] {old new : Array α} {K : Tag → Prop}

/-! ## Stretches -/

/-- The stretches lead from one pair of places to another. The changes are of the kinds `K`. -/
inductive Cut (old new : Array α) (K : Tag → Prop) : Nat → Nat → List Stretch → Nat → Nat → Prop
  | nil (i j : Nat) : Cut old new K i j [] i j
  | equal {i j n i' j' : Nat} {ss : List Stretch} (hpos : 0 < n) (hsame : SameRun old new i j n)
      (h : Cut old new K (i + n) (j + n) ss i' j') :
      Cut old new K i j (⟨true, i, n, j, n⟩ :: ss) i' j'
  | change {i j n m p q i' j' : Nat} {ss : List Stretch} (hpos : 0 < n + m)
      (hold : 0 < n → p = i) (hnew : 0 < m → q = j)
      (hplace : K .delete ∧ K .insert ∨ p = i ∧ q = j)
      (h : Cut old new K (i + n) (j + m) ss i' j') :
      Cut old new K i j (⟨false, p, n, q, m⟩ :: ss) i' j'

theorem Cut.append {i j p q i' j' : Nat} {ss ts : List Stretch} (h : Cut old new K i j ss p q)
    (h' : Cut old new K p q ts i' j') : Cut old new K i j (ss ++ ts) i' j' := by
  induction h with
  | nil => exact h'
  | equal hpos hsame _ ih => exact .equal hpos hsame (ih h')
  | change hpos hold hnew hplace _ ih => exact .change hpos hold hnew hplace (ih h')

theorem Cut.of_append {i j i' j' : Nat} {ss ts : List Stretch}
    (h : Cut old new K i j (ss ++ ts) i' j') :
    ∃ p q, Cut old new K i j ss p q ∧ Cut old new K p q ts i' j' := by
  induction ss generalizing i j with
  | nil => exact ⟨i, j, .nil i j, h⟩
  | cons s ss ih =>
    cases h with
    | equal hpos hsame h =>
      obtain ⟨p, q, hs, ht⟩ := ih h
      exact ⟨p, q, .equal hpos hsame hs, ht⟩
    | change hpos hold hnew hplace h =>
      obtain ⟨p, q, hs, ht⟩ := ih h
      exact ⟨p, q, .change hpos hold hnew hplace hs, ht⟩

theorem Cut.cons_equal {i j i' j' : Nat} {s : Stretch} {ss : List Stretch}
    (h : Cut old new K i j (s :: ss) i' j') (hs : s.isEqual = true) :
    ∃ n, 0 < n ∧ s = ⟨true, i, n, j, n⟩ ∧ SameRun old new i j n ∧
      Cut old new K (i + n) (j + n) ss i' j' := by
  cases h with
  | equal hpos hsame h => exact ⟨_, hpos, rfl, hsame, h⟩
  | change => cases hs

/-- What has been gathered leads from one pair of places to another. A change of one kind has its
place on the other side, if there is no other kind. -/
inductive Gathered.Covers (old new : Array α) (K : Tag → Prop) :
    Gathered → Nat → Nat → Nat → Nat → Prop
  | equal {i j n : Nat} (hpos : 0 < n) (hsame : SameRun old new i j n) :
      Covers old new K ⟨some (.equal i j n), none, none⟩ i j (i + n) (j + n)
  | change {deleted inserted : Option Op} {i j n m : Nat}
      (hdeleted : deleted = none ∧ n = 0 ∨ ∃ q, 0 < n ∧ K .delete ∧
        (m = 0 → K .insert ∨ q = j) ∧ deleted = some (.delete i n q))
      (hinserted : inserted = none ∧ m = 0 ∨ ∃ p, 0 < m ∧ K .insert ∧
        (n = 0 → K .delete ∨ p = i) ∧ inserted = some (.insert p j m)) :
      Covers old new K ⟨none, deleted, inserted⟩ i j (i + n) (j + m)

theorem Gathered.Covers.cut {g : Gathered} {i j p q i' j' : Nat} {ss : List Stretch}
    (hg : g.Covers old new K i j p q) (h : Cut old new K p q ss i' j') :
    Cut old new K i j (g.equals ++ g.changes ++ ss) i' j' := by
  cases hg with
  | equal hpos hsame => exact .equal hpos hsame h
  | change hdeleted hinserted =>
    rcases hdeleted with ⟨rfl, rfl⟩ | ⟨q, hn, hdelete, hq, rfl⟩
    · rcases hinserted with ⟨rfl, rfl⟩ | ⟨p, hm, hinsert, hp, rfl⟩
      · exact h
      · exact .change (Nat.add_pos_right 0 hm) (fun h0 => absurd h0 (Nat.lt_irrefl 0))
          (fun _ => rfl) ((hp rfl).imp (⟨·, hinsert⟩) (⟨·, rfl⟩)) h
    · rcases hinserted with ⟨rfl, rfl⟩ | ⟨p, hm, hinsert, hp, rfl⟩
      · exact .change (Nat.add_pos_left hn 0) (fun _ => rfl)
          (fun h0 => absurd h0 (Nat.lt_irrefl 0)) ((hq rfl).imp (⟨hdelete, ·⟩) (⟨rfl, ·⟩)) h
      · exact .change (Nat.add_pos_left hn _) (fun _ => rfl) (fun _ => rfl) (.inr ⟨rfl, rfl⟩) h

theorem Gathered.covers_none (i j : Nat) : Covers old new K ⟨none, none, none⟩ i j i j :=
  .change (.inl ⟨rfl, rfl⟩) (.inl ⟨rfl, rfl⟩)

theorem Gathered.Covers.delete {deleted inserted : Option Op} {i j p q n c : Nat}
    (hg : Covers old new K ⟨none, deleted, inserted⟩ i j p q) (hpos : 0 < n) (hkind : K .delete)
    (hplace : K .insert ∨ c = q) :
    Covers old new K ⟨none, some (joined deleted (.delete p n c)), inserted⟩ i j (p + n) q := by
  cases hg with
  | @change _ _ _ _ _ m hdeleted hinserted =>
    have hinserted' (n' : Nat) : inserted = none ∧ m = 0 ∨ ∃ p, 0 < m ∧ K .insert ∧
        (n' = 0 → K .delete ∨ p = i) ∧ inserted = some (.insert p j m) :=
      hinserted.imp_right fun ⟨p, hm, hinsert, _, hp⟩ => ⟨p, hm, hinsert, fun _ => .inl hkind, hp⟩
    rcases hdeleted with ⟨rfl, rfl⟩ | ⟨q, hn, hdelete, hq, rfl⟩
    · refine .change (.inr ⟨c, hpos, hkind, ?_, rfl⟩) (hinserted' n)
      rintro rfl
      exact hplace
    · rw [Nat.add_assoc]
      exact .change (.inr ⟨q, Nat.add_pos_left hn _, hdelete, hq, rfl⟩) (hinserted' _)

theorem Gathered.Covers.insert {deleted inserted : Option Op} {i j p q m c : Nat}
    (hg : Covers old new K ⟨none, deleted, inserted⟩ i j p q) (hpos : 0 < m) (hkind : K .insert)
    (hplace : K .delete ∨ c = p) :
    Covers old new K ⟨none, deleted, some (joined inserted (.insert c q m))⟩ i j p (q + m) := by
  cases hg with
  | @change _ _ _ _ n _ hdeleted hinserted =>
    have hdeleted' (m' : Nat) : deleted = none ∧ n = 0 ∨ ∃ q, 0 < n ∧ K .delete ∧
        (m' = 0 → K .insert ∨ q = j) ∧ deleted = some (.delete i n q) :=
      hdeleted.imp_right fun ⟨q, hn, hdelete, _, hq⟩ => ⟨q, hn, hdelete, fun _ => .inl hkind, hq⟩
    rcases hinserted with ⟨rfl, rfl⟩ | ⟨p, hm, hinsert, hp, rfl⟩
    · refine .change (hdeleted' m) (.inr ⟨c, hpos, hkind, ?_, rfl⟩)
      rintro rfl
      exact hplace
    · rw [Nat.add_assoc]
      exact .change (hdeleted' _) (.inr ⟨p, Nat.add_pos_left hm _, hinsert, hp, rfl⟩)

/-- The stretches that the steps of a path are gathered into lead to where the path leads. -/
theorem stretches_cut {g : Gathered} {i j p q i' j' : Nat} {ops : List Op}
    (hg : g.Covers old new K i j p q) (h : Path old new K p q ops i' j') :
    Cut old new K i j (stretches g ops) i' j' := by
  induction h generalizing g i j with
  | nil =>
    rw [stretches, ← List.append_nil (g.equals ++ g.changes)]
    exact hg.cut (.nil _ _)
  | equal hpos hsame _ ih =>
    cases hg with
    | equal hpos' hsame' =>
      have hboth : SameRun old new i j _ := hsame'.append hsame
      refine ih (g := ⟨some (.equal i j _), none, none⟩) (i := i) (j := j) ?_
      rw [Nat.add_assoc, Nat.add_assoc]
      exact .equal (Nat.add_pos_left hpos' _) hboth
    | change hdeleted hinserted =>
      exact (Gathered.Covers.change hdeleted hinserted).cut (ih (.equal hpos hsame))
  | delete hpos hkind hplace _ ih =>
    cases hg with
    | equal hpos' hsame' =>
      exact .equal hpos' hsame' (ih ((Gathered.covers_none _ _).delete hpos hkind hplace))
    | change hdeleted hinserted =>
      exact ih ((Gathered.Covers.change hdeleted hinserted).delete hpos hkind hplace)
  | insert hpos hkind hplace _ ih =>
    cases hg with
    | equal hpos' hsame' =>
      exact .equal hpos' hsame' (ih ((Gathered.covers_none _ _).insert hpos hkind hplace))
    | change hdeleted hinserted =>
      exact ih ((Gathered.Covers.change hdeleted hinserted).insert hpos hkind hplace)

/-- Equal and changed stretches take turns. -/
def Alternating (ss : List Stretch) : Prop := ss.IsChain fun s t => s.isEqual ≠ t.isEqual

/-- Equal items are not gathered together with changes. -/
def Gathered.Plain (g : Gathered) : Prop :=
  g.equal = none ∨ g.deleted = none ∧ g.inserted = none

theorem Gathered.equals_cases (g : Gathered) :
    g.equals = [] ∧ g.equal = none ∨ ∃ s, g.equals = [s] ∧ s.isEqual = true ∧ g.equal ≠ none := by
  obtain ⟨_ | e, d, n⟩ := g
  · exact .inl ⟨rfl, rfl⟩
  · exact .inr ⟨_, rfl, rfl, nofun⟩

theorem Gathered.changes_cases (g : Gathered) :
    g.changes = [] ∧ g.deleted = none ∧ g.inserted = none ∨
      ∃ s, g.changes = [s] ∧ s.isEqual = false ∧ (g.deleted ≠ none ∨ g.inserted ≠ none) := by
  obtain ⟨e, _ | d, _ | n⟩ := g
  · exact .inl ⟨rfl, rfl, rfl⟩
  · exact .inr ⟨_, rfl, rfl, .inr nofun⟩
  · exact .inr ⟨_, rfl, rfl, .inl nofun⟩
  · exact .inr ⟨_, rfl, rfl, .inl nofun⟩

theorem Alternating.cons {s : Stretch} {ss : List Stretch} (h : Alternating ss)
    (hhead : ∀ t ∈ ss.head?, s.isEqual ≠ t.isEqual) : Alternating (s :: ss) :=
  List.isChain_cons.2 ⟨hhead, h⟩

/-- Stretches take turns, and the first of them is of the kind that had been gathered. -/
theorem stretches_alternating {g : Gathered} (hg : g.Plain) (ops : List Op) :
    Alternating (stretches g ops) ∧ ∀ s ∈ (stretches g ops).head?,
      (g.equal ≠ none → s.isEqual = true) ∧
        (g.deleted ≠ none ∨ g.inserted ≠ none → s.isEqual = false) := by
  induction ops generalizing g with
  | nil =>
    rw [stretches]
    rcases g.equals_cases with ⟨he, hnone⟩ | ⟨s, he, hs, hsome⟩
    · rcases g.changes_cases with ⟨hc, -⟩ | ⟨s, hc, hs, -⟩
      · rw [he, hc]
        exact ⟨.nil, by simp⟩
      · rw [he, hc]
        refine ⟨.singleton s, ?_⟩
        intro t ht
        cases ht
        exact ⟨fun h => absurd hnone h, fun _ => hs⟩
    · obtain ⟨hdeleted, hinserted⟩ := hg.resolve_left hsome
      rcases g.changes_cases with ⟨hc, -⟩ | ⟨s, -, -, h⟩
      · rw [he, hc]
        refine ⟨.singleton s, ?_⟩
        intro t ht
        cases ht
        exact ⟨fun _ => hs, fun h => by simp [hdeleted, hinserted] at h⟩
      · simp [hdeleted, hinserted] at h
  | cons o ops ih =>
    rw [stretches]
    -- a deletion and an insertion do the same: the equal items are given out before them
    have hflushed : ∀ g' : Gathered, g'.equal = none → g'.deleted ≠ none ∨ g'.inserted ≠ none →
        Alternating (g.equals ++ stretches g' ops) ∧
          ∀ s ∈ (g.equals ++ stretches g' ops).head?, (g.equal ≠ none → s.isEqual = true) ∧
            (g.deleted ≠ none ∨ g.inserted ≠ none → s.isEqual = false) := by
      intro g' hnone hsome
      obtain ⟨halt, hhead⟩ := ih (g := g') (.inl hnone)
      rcases g.equals_cases with ⟨he, hg0⟩ | ⟨s, he, hs, hg0⟩
      · rw [he]
        exact ⟨halt, fun s hs => ⟨fun h => absurd hg0 h, fun _ => (hhead s hs).2 hsome⟩⟩
      · obtain ⟨hdeleted, hinserted⟩ := hg.resolve_left hg0
        rw [he]
        refine ⟨halt.cons fun t ht => by rw [hs, (hhead t ht).2 hsome]; decide, ?_⟩
        intro t ht
        cases ht
        exact ⟨fun _ => hs, fun h => by simp [hdeleted, hinserted] at h⟩
    split
    · obtain ⟨halt, hhead⟩ := ih (g := ⟨some (joined g.equal o), none, none⟩) (.inr ⟨rfl, rfl⟩)
      rcases g.changes_cases with ⟨hc, hdeleted, hinserted⟩ | ⟨s, hc, hs, hsome⟩
      · rw [hc]
        refine ⟨halt, fun s hs => ⟨fun _ => (hhead s hs).1 nofun, fun h => ?_⟩⟩
        simp [hdeleted, hinserted] at h
      · rw [hc]
        refine ⟨halt.cons fun t ht => by rw [hs, (hhead t ht).1 nofun]; decide, ?_⟩
        intro t ht
        cases ht
        refine ⟨fun h => ?_, fun _ => hs⟩
        obtain ⟨hdeleted, hinserted⟩ := hg.resolve_left h
        simp [hdeleted, hinserted] at hsome
    · exact hflushed _ rfl (.inl nofun)
    · exact hflushed _ rfl (.inr nofun)

/-! ## Hunks -/

/-- A hunk with its places in the old and the new items. -/
structure Located where
  old : Nat
  new : Nat
  stretches : List Stretch

/-- The hunks lead from one pair of places to another, over equal items that they do not show: at
least `g` before the first of them and at least one before each other. -/
inductive Hunked (old new : Array α) (K : Tag → Prop) :
    Nat → Nat → Nat → List Located → Nat → Nat → Prop
  | done {g i j n : Nat} (hsame : SameRun old new i j n) : Hunked old new K g i j [] (i + n) (j + n)
  | hunk {g i j n p q i' j' : Nat} {ss : List Stretch} {ks : List Located} (hgap : g ≤ n)
      (hsame : SameRun old new i j n) (hcut : Cut old new K (i + n) (j + n) ss p q)
      (hrest : Hunked old new K 1 p q ks i' j') :
      Hunked old new K g i j (⟨i + n, j + n, ss⟩ :: ks) i' j'

theorem cutHunks_hunked {g i j n p q p' q' m : Nat} {pending rest : List Stretch} (hgap : g ≤ n)
    (hsame : SameRun old new i j n) (hpending : Cut old new K (i + n) (j + n) pending p q)
    (hrest : Cut old new K p q rest p' q') (hend : SameRun old new p' q' m) :
    ∃ ks, ks.map (·.stretches) = cutHunks rest pending ∧
      Hunked old new K g i j ks (p' + m) (q' + m) := by
  induction rest generalizing g i j n p q pending with
  | nil =>
    cases hrest
    have hall : Hunked old new K g i j [⟨i + n, j + n, pending⟩] (p' + m) (q' + m) :=
      .hunk hgap hsame hpending (.done hend)
    -- what is pending makes a hunk unless it is nothing but equal items
    obtain _ | ⟨s, _ | ⟨t, pending⟩⟩ := pending
    · cases hpending
      rw [Nat.add_assoc, Nat.add_assoc]
      exact ⟨[], rfl, .done (hsame.append hend)⟩
    · simp only [cutHunks]
      split
      · next hs =>
        obtain ⟨k, -, rfl, hrun, hnil⟩ := hpending.cons_equal hs
        cases hnil
        have hboth := (hsame.append hrun).append (by rwa [← Nat.add_assoc, ← Nat.add_assoc])
        rw [Nat.add_assoc i, Nat.add_assoc i, Nat.add_assoc j, Nat.add_assoc j]
        exact ⟨[], rfl, .done hboth⟩
      · exact ⟨_, rfl, hall⟩
    · exact ⟨_, rfl, hall⟩
  | cons s rest ih =>
    rw [cutHunks]
    split
    · next hs =>
      simp only [Bool.and_eq_true, decide_eq_true_eq] at hs
      obtain ⟨k, -, rfl, hrun, hafter⟩ := hrest.cons_equal hs.1
      have hk : 6 < k := hs.2
      -- three items end this hunk, three begin the next, and those between them are not shown
      have hshown : Cut old new K (i + n) (j + n) (pending ++ [⟨true, p, 3, q, 3⟩])
          (p + 3) (q + 3) :=
        hpending.append (.equal (by omega) (hrun.mono (by omega)) (.nil _ _))
      have hgap' : SameRun old new (p + 3) (q + 3) (k - 6) :=
        (SameRun.drop (by rwa [Nat.add_sub_cancel' (show 3 ≤ k by omega)])).mono (by omega)
      have hnext : SameRun old new (p + (k - 3)) (q + (k - 3)) 3 :=
        SameRun.drop (by rwa [Nat.sub_add_cancel (show 3 ≤ k by omega)])
      have hcut : Cut old new K (p + 3 + (k - 6)) (q + 3 + (k - 6))
          [⟨true, p + (k - 3), 3, q + (k - 3), 3⟩] (p + k) (q + k) := by
        rw [show p + 3 + (k - 6) = p + (k - 3) by omega,
          show q + 3 + (k - 6) = q + (k - 3) by omega]
        have hends : p + (k - 3) + 3 = p + k ∧ q + (k - 3) + 3 = q + k := by omega
        rw [← hends.1, ← hends.2]
        exact .equal (by omega) hnext (.nil _ _)
      obtain ⟨ks, hks, hhunked⟩ := ih (show 1 ≤ k - 6 by omega) hgap' hcut hafter
      have hstart : keepStart context ⟨true, p, k, q, k⟩ = ⟨true, p, 3, q, 3⟩ := by
        simp only [keepStart, context, if_true, Nat.min_eq_left (show 3 ≤ k by omega)]
      have hlast : keepEnd context ⟨true, p, k, q, k⟩
          = ⟨true, p + (k - 3), 3, q + (k - 3), 3⟩ := by
        simp only [keepEnd, context, if_true, Nat.sub_sub_self (show 3 ≤ k by omega)]
      rw [hstart, hlast]
      refine ⟨⟨i + n, j + n, pending ++ [⟨true, p, 3, q, 3⟩]⟩ :: ks, ?_, ?_⟩
      · rw [List.map_cons, hks]
      · exact .hunk hgap hsame hshown hhunked
    · rw [← List.singleton_append] at hrest
      obtain ⟨r, t, hs, hafter⟩ := hrest.of_append
      exact ih hgap hsame (hpending.append hs) hafter

theorem Cut.keepEnd {i j i' j' : Nat} {ss : List Stretch} (h : Cut old new K i j ss i' j') :
    ∃ n, SameRun old new i j n ∧
      Cut old new K (i + n) (j + n) (ss.modify 0 (keepEnd context)) i' j' := by
  have hnone : SameRun old new i j 0 := fun k hk => absurd hk (Nat.not_lt_zero k)
  cases h with
  | nil => exact ⟨0, hnone, .nil _ _⟩
  | equal hpos hsame h =>
    rename_i n ss
    refine ⟨n - 3, hsame.mono (Nat.sub_le n 3), .equal (n := n - (n - 3)) (by omega) ?_ ?_⟩
    · exact SameRun.drop (by rwa [Nat.add_sub_cancel' (Nat.sub_le n 3)])
    · rwa [show i + (n - 3) + (n - (n - 3)) = i + n by omega,
        show j + (n - 3) + (n - (n - 3)) = j + n by omega]
  | change hpos hold hnew hplace h => exact ⟨0, hnone, .change hpos hold hnew hplace h⟩

theorem Cut.keepStart {i j i' j' : Nat} {ss : List Stretch} (h : Cut old new K i j ss i' j') :
    ∃ n p q, Cut old new K i j (ss.modify (ss.length - 1) (keepStart context)) p q ∧
      SameRun old new p q n ∧ i' = p + n ∧ j' = q + n := by
  have hnone : SameRun old new i' j' 0 := fun k hk => absurd hk (Nat.not_lt_zero k)
  rcases List.eq_nil_or_concat ss with rfl | ⟨ss, s, rfl⟩
  · exact ⟨0, i', j', h, hnone, rfl, rfl⟩
  · simp only [List.concat_eq_append, List.length_append, List.length_singleton,
      Nat.add_sub_cancel] at h ⊢
    rw [show (ss ++ [s]).modify ss.length (Patch.keepStart context)
      = ss ++ [Patch.keepStart context s] from modify_append_add ss _ 0 _]
    obtain ⟨p, q, hfirst, hlast⟩ := h.of_append
    cases hlast with
    | equal hpos hsame hnil =>
      rename_i n
      cases hnil
      have hshown : Cut old new K p q [⟨true, p, min 3 n, q, min 3 n⟩]
          (p + min 3 n) (q + min 3 n) :=
        .equal (by omega) (hsame.mono (by omega)) (.nil _ _)
      refine ⟨n - min 3 n, p + min 3 n, q + min 3 n, hfirst.append hshown, ?_, by omega, by omega⟩
      exact SameRun.drop (by rwa [Nat.add_sub_cancel' (Nat.min_le_right 3 n)])
    | change hpos hold hnew hplace hnil =>
      exact ⟨0, i', j', hfirst.append (.change hpos hold hnew hplace hnil), hnone, rfl, rfl⟩

/-- The hunks of a difference lead to where it leads. -/
theorem hunks_hunked {i j i' j' : Nat} {ss : List Stretch} (h : Cut old new K i j ss i' j') :
    ∃ ks, ks.map (·.stretches) = hunks ss ∧ Hunked old new K 0 i j ks i' j' := by
  obtain ⟨n, hsame, hcut⟩ := h.keepEnd
  obtain ⟨m, p, q, hboth, hend, rfl, rfl⟩ := hcut.keepStart
  exact cutHunks_hunked (Nat.zero_le n) hsame (.nil _ _) hboth hend

/-! ## Context -/

/-- A hunk has a change, and shows few equal items at its ends and between its changes. -/
structure Tight (h : List Stretch) : Prop where
  changed : ∃ s ∈ h, s.isEqual = false
  first : ∀ s ∈ h.head?, s.isEqual = true → s.oldLength ≤ context
  last : ∀ s ∈ h.getLast?, s.isEqual = true → s.oldLength ≤ context
  inner : ∀ s ∈ h, s.isEqual = true → s.oldLength ≤ 2 * context
  alternating : Alternating h

@[simp] theorem isEqual_keepEnd (n : Nat) (s : Stretch) : (keepEnd n s).isEqual = s.isEqual := by
  unfold keepEnd
  split
  · next h => exact h.symm
  · rfl

@[simp] theorem isEqual_keepStart (n : Nat) (s : Stretch) :
    (keepStart n s).isEqual = s.isEqual := by
  unfold keepStart
  split <;> rfl

theorem oldLength_keepEnd {n : Nat} {s : Stretch} (h : s.isEqual = true) :
    (keepEnd n s).oldLength ≤ n := by
  simp only [keepEnd, if_pos h]
  omega

theorem oldLength_keepStart {n : Nat} {s : Stretch} (h : s.isEqual = true) :
    (keepStart n s).oldLength ≤ n := by
  simp only [keepStart, if_pos h]
  omega

theorem alternating_iff_map {ss : List Stretch} :
    Alternating ss ↔ (ss.map (·.isEqual)).IsChain (· ≠ ·) :=
  (List.isChain_map _).symm

/-- Trimming keeps the kinds of the stretches. -/
theorem Alternating.of_map_eq {ss ts : List Stretch} (h : Alternating ss)
    (hmap : ts.map (·.isEqual) = ss.map (·.isEqual)) : Alternating ts := by
  rw [alternating_iff_map, hmap]
  exact alternating_iff_map.1 h

theorem Alternating.exists_change {s t : Stretch} {ss : List Stretch}
    (h : Alternating (s :: t :: ss)) : ∃ u ∈ s :: t :: ss, u.isEqual = false := by
  have hne : s.isEqual ≠ t.isEqual := (List.isChain_cons_cons.1 h).1
  by_cases hs : s.isEqual = true
  · refine ⟨t, List.mem_cons_of_mem s List.mem_cons_self, ?_⟩
    rw [hs] at hne
    exact Bool.eq_false_iff.2 hne.symm
  · exact ⟨s, List.mem_cons_self, Bool.eq_false_iff.2 hs⟩

/-- A hunk that ends in a long stretch of equal lines is tight once that stretch is cut. -/
theorem tight_append_keepStart {pending : List Stretch} {s : Stretch} (hequal : s.isEqual = true)
    (hlong : 2 * context < s.oldLength) (halt : Alternating (pending ++ [s]))
    (hfirst : ∀ t ∈ (pending ++ [s]).head?, t.isEqual = true → t.oldLength ≤ context)
    (hinner : ∀ t ∈ pending, t.isEqual = true → t.oldLength ≤ 2 * context) :
    Tight (pending ++ [keepStart context s]) := by
  have hcut := oldLength_keepStart (n := context) hequal
  have halt' : Alternating (pending ++ [keepStart context s]) := halt.of_map_eq (by simp)
  -- the first stretch is short, so the long one has another before it
  obtain _ | ⟨t, pending⟩ := pending
  · have := hfirst s rfl hequal
    simp only [context] at this hlong
    omega
  · refine ⟨?_, fun u hu => hfirst u hu, ?_, ?_, halt'⟩
    · obtain _ | ⟨u, pending⟩ := pending <;> exact halt'.exists_change
    · intro u hu _
      rw [List.getLast?_concat] at hu
      cases hu
      exact hcut
    · intro u hu hu'
      rcases List.mem_append.1 hu with hu | hu
      · exact hinner u hu hu'
      · obtain rfl := List.mem_singleton.1 hu
        omega

theorem cutHunks_tight (rest pending : List Stretch) (halt : Alternating (pending ++ rest))
    (hfirst : ∀ s ∈ (pending ++ rest).head?, s.isEqual = true → s.oldLength ≤ context)
    (hlast : ∀ s ∈ (pending ++ rest).getLast?, s.isEqual = true → s.oldLength ≤ context)
    (hinner : ∀ s ∈ pending, s.isEqual = true → s.oldLength ≤ 2 * context) :
    ∀ h ∈ cutHunks rest pending, Tight h := by
  induction rest generalizing pending with
  | nil =>
    intro h hh
    rw [List.append_nil] at halt hfirst hlast
    obtain _ | ⟨s, _ | ⟨t, pending⟩⟩ := pending
    · cases hh
    · simp only [cutHunks] at hh
      split at hh
      · cases hh
      · next hs =>
        obtain rfl := List.mem_singleton.1 hh
        exact ⟨⟨s, List.mem_singleton_self s, by simpa using hs⟩, hfirst, hlast, hinner, halt⟩
    · simp only [cutHunks, List.mem_singleton] at hh
      subst hh
      exact ⟨halt.exists_change, hfirst, hlast, hinner, halt⟩
  | cons s rest ih =>
    intro h hh
    rw [cutHunks] at hh
    split at hh
    · next hs =>
      simp only [Bool.and_eq_true, decide_eq_true_eq] at hs
      obtain ⟨hequal, hlong⟩ := hs
      rcases List.mem_cons.1 hh with rfl | hh
      · rw [show pending ++ s :: rest = pending ++ [s] ++ rest by simp] at halt hfirst
        refine tight_append_keepStart hequal hlong (List.isChain_append.1 halt).1 ?_ hinner
        intro t ht
        refine hfirst t ?_
        rwa [List.head?_append_of_ne_nil _ (by simp)]
      · have hcut := oldLength_keepEnd (n := context) hequal
        refine ih [keepEnd context s] ?_ ?_ ?_ ?_ h hh
        · refine Alternating.of_map_eq (List.isChain_append.1 halt).2.1 ?_
          simp
        · intro u hu _
          cases hu
          exact hcut
        · obtain _ | ⟨t, rest⟩ := rest
          · intro u hu _
            cases hu
            exact hcut
          · intro u hu
            refine hlast u ?_
            simpa [List.getLast?_append, List.getLast?_cons] using hu
        · intro u hu _
          obtain rfl := List.mem_singleton.1 hu
          omega
    · next hs =>
      rw [show pending ++ s :: rest = pending ++ [s] ++ rest by simp] at halt hfirst hlast
      refine ih _ halt hfirst hlast ?_ h hh
      intro t ht hequal
      rcases List.mem_append.1 ht with ht | ht
      · exact hinner t ht hequal
      · obtain rfl := List.mem_singleton.1 ht
        simp only [hequal, Bool.true_and, decide_eq_true_eq, not_lt] at hs
        exact hs

theorem map_isEqual_modify {f : Stretch → Stretch} (hf : ∀ s, (f s).isEqual = s.isEqual)
    (ss : List Stretch) (n : Nat) :
    (ss.modify n f).map (·.isEqual) = ss.map (·.isEqual) := by
  induction ss generalizing n with
  | nil => simp
  | cons s ss ih =>
    cases n with
    | zero => simp [hf]
    | succ n => simp [ih]

/-- Every hunk of a difference is tight. -/
theorem hunks_tight {ss : List Stretch} (halt : Alternating ss) : ∀ h ∈ hunks ss, Tight h := by
  have halt' : Alternating (ss.modify 0 (keepEnd context)) :=
    halt.of_map_eq (map_isEqual_modify (isEqual_keepEnd context) ss 0)
  have hfirst : ∀ s ∈ (ss.modify 0 (keepEnd context)).head?, s.isEqual = true →
      s.oldLength ≤ context := by
    intro s hs hequal
    obtain _ | ⟨t, ss⟩ := ss
    · cases hs
    · cases hs
      exact oldLength_keepEnd (by simpa using hequal)
  unfold hunks
  generalize ss.modify 0 (keepEnd context) = ts at *
  refine cutHunks_tight _ [] ?_ ?_ ?_ (fun s hs => absurd hs List.not_mem_nil)
  · exact halt'.of_map_eq (map_isEqual_modify (isEqual_keepStart context) ts _)
  · intro s hs hequal
    obtain _ | ⟨t, _ | ⟨u, ts⟩⟩ := ts
    · cases hs
    · cases hs
      exact oldLength_keepStart (by simpa using hequal)
    · cases hs
      exact hfirst s rfl hequal
  · intro s hs hequal
    rcases List.eq_nil_or_concat ts with rfl | ⟨ts, t, rfl⟩
    · cases hs
    · simp only [List.concat_eq_append, List.length_append, List.length_singleton,
        Nat.add_sub_cancel, List.nil_append] at hs
      rw [show (ts ++ [t]).modify ts.length (keepStart context) = ts ++ [keepStart context t]
        from modify_append_add ts _ 0 _, List.getLast?_concat] at hs
      cases hs
      exact oldLength_keepStart (by simpa using hequal)

/-! ## Changes that are shown -/

/-- How many items a step of some kind goes over. -/
def Op.length (t : Tag) (o : Op) : Nat :=
  match t with
  | .insert => o.newLength
  | _ => o.oldLength

/-- The steps of some kind that have been gathered. -/
def Gathered.ofKind (t : Tag) (g : Gathered) : Option Op :=
  match t with
  | .insert => g.inserted
  | _ => g.deleted

/-- A stretch with changes of some kind. -/
def Stretch.Shows (t : Tag) (s : Stretch) : Prop :=
  s.isEqual = false ∧ 0 <
    match t with
    | .insert => s.newLength
    | _ => s.oldLength

theorem Path.length_pos {i j i' j' : Nat} {ops : List Op} (h : Path old new K i j ops i' j') :
    ∀ o ∈ ops, 0 < o.length o.tag := by
  induction h with
  | nil => exact fun o ho => absurd ho List.not_mem_nil
  | equal hpos _ _ ih => exact List.forall_mem_cons.2 ⟨hpos, ih⟩
  | delete hpos _ _ _ ih => exact List.forall_mem_cons.2 ⟨hpos, ih⟩
  | insert hpos _ _ _ ih => exact List.forall_mem_cons.2 ⟨hpos, ih⟩

theorem Gathered.exists_shows {g : Gathered} {t : Tag} (ht : t ≠ .equal) {o : Op}
    (ho : g.ofKind t = some o) (hpos : 0 < o.length t) : ∃ s ∈ g.changes, s.Shows t := by
  obtain ⟨e, d, n⟩ := g
  cases t with
  | equal => exact absurd rfl ht
  | delete =>
    obtain rfl : d = some o := ho
    cases n <;> exact ⟨_, List.mem_singleton_self _, rfl, hpos⟩
  | insert =>
    obtain rfl : n = some o := ho
    cases d <;> exact ⟨_, List.mem_singleton_self _, rfl, hpos⟩

theorem length_joined (t : Tag) (o : Option Op) (n : Op) : n.length t ≤ (joined o n).length t := by
  cases o <;> cases t <;> simp [joined, Op.length]

/-- A change is gathered with those of its kind. -/
theorem exists_stretches_cons {o : Op} (ho : o.tag ≠ .equal) (g : Gathered) (ops : List Op) :
    ∃ g' : Gathered, stretches g (o :: ops) = g.equals ++ stretches g' ops ∧ ∀ t, t ≠ .equal →
      g'.ofKind t = if t = o.tag then some (joined (g.ofKind t) o) else g.ofKind t := by
  rw [stretches]
  split
  · next htag => exact absurd htag ho
  · next htag =>
    refine ⟨_, rfl, fun t ht => ?_⟩
    cases t with
    | equal => exact absurd rfl ht
    | delete => exact (if_pos htag.symm).symm
    | insert => exact (if_neg (by rw [htag]; nofun)).symm
  · next htag =>
    refine ⟨_, rfl, fun t ht => ?_⟩
    cases t with
    | equal => exact absurd rfl ht
    | delete => exact (if_neg (by rw [htag]; nofun)).symm
    | insert => exact (if_pos htag.symm).symm

/-- A kind of change that has been gathered or is still to come is shown by a stretch. -/
theorem exists_stretch_shows {t : Tag} (ht : t ≠ .equal) {g : Gathered} {ops : List Op}
    (hg : ∀ o, g.ofKind t = some o → 0 < o.length t)
    (hops : ∀ o ∈ ops, 0 < o.length o.tag)
    (h : g.ofKind t ≠ none ∨ t ∈ ops.map (·.tag)) : ∃ s ∈ stretches g ops, s.Shows t := by
  induction ops generalizing g with
  | nil =>
    obtain ⟨o, ho⟩ := Option.ne_none_iff_exists'.1 (h.resolve_right List.not_mem_nil)
    obtain ⟨s, hs, hshows⟩ := Gathered.exists_shows ht ho (hg o ho)
    exact ⟨s, List.mem_append_right _ hs, hshows⟩
  | cons o ops ih =>
    obtain ⟨ho, hops⟩ := List.forall_mem_cons.1 hops
    rw [List.map_cons, List.mem_cons] at h
    by_cases htag : o.tag = .equal
    · -- what has been gathered is shown before the equal items
      simp only [stretches, htag]
      cases hkind : g.ofKind t with
      | some d =>
        obtain ⟨s, hs, hshows⟩ := Gathered.exists_shows ht hkind (hg d hkind)
        exact ⟨s, List.mem_append_left _ hs, hshows⟩
      | none =>
        have hlater : t ∈ ops.map (·.tag) :=
          (h.resolve_left (absurd hkind)).resolve_left fun heq => ht (heq.trans htag)
        obtain ⟨s, hs, hshows⟩ := ih (g := ⟨some (joined g.equal o), none, none⟩)
          (by cases t <;> exact nofun) hops (.inr hlater)
        exact ⟨s, List.mem_append_right _ hs, hshows⟩
    · obtain ⟨g', hstretches, hkinds⟩ := exists_stretches_cons htag g ops
      have hkind := hkinds t ht
      rw [hstretches]
      obtain ⟨s, hs, hshows⟩ : ∃ s ∈ stretches g' ops, s.Shows t := by
        by_cases heq : t = o.tag
        · rw [if_pos heq] at hkind
          refine ih ?_ hops (.inl (by simp [hkind]))
          intro o' ho'
          rw [hkind] at ho'
          cases ho'
          rw [← heq] at ho
          exact Nat.lt_of_lt_of_le ho (length_joined t _ o)
        · rw [if_neg heq] at hkind
          rw [← hkind] at hg h
          exact ih hg hops (h.imp_right fun h => h.resolve_left heq)
      exact ⟨s, List.mem_append_right _ hs, hshows⟩

theorem exists_mem_cutHunks {s : Stretch} (hs : s.isEqual = false) (rest pending : List Stretch)
    (h : s ∈ pending ++ rest) : ∃ k ∈ cutHunks rest pending, s ∈ k := by
  induction rest generalizing pending with
  | nil =>
    rw [List.append_nil] at h
    obtain _ | ⟨t, _ | ⟨u, pending⟩⟩ := pending
    · cases h
    · obtain rfl := List.mem_singleton.1 h
      simp only [cutHunks, hs]
      exact ⟨[s], List.mem_singleton_self _, List.mem_singleton_self _⟩
    · exact ⟨_, List.mem_singleton_self _, h⟩
  | cons t rest ih =>
    rw [cutHunks]
    split
    · next ht =>
      simp only [Bool.and_eq_true, decide_eq_true_eq] at ht
      rcases List.mem_append.1 h with h | h
      · exact ⟨_, List.mem_cons_self, List.mem_append_left _ h⟩
      · have hne : s ≠ t := fun heq => by rw [heq, ht.1] at hs; cases hs
        have hmem : s ∈ rest := (List.mem_cons.1 h).resolve_left hne
        obtain ⟨k, hk, hsk⟩ := ih [keepEnd context t] (List.mem_append_right _ hmem)
        exact ⟨k, List.mem_cons_of_mem _ hk, hsk⟩
    · exact ih (pending ++ [t]) (by simpa using h)

theorem mem_modify {f : Stretch → Stretch} {s : Stretch} (hf : f s = s) {ss : List Stretch}
    (h : s ∈ ss) (n : Nat) : s ∈ ss.modify n f := by
  induction ss generalizing n with
  | nil => cases h
  | cons t ss ih =>
    cases n with
    | zero =>
      rcases List.mem_cons.1 h with rfl | h
      · simp [hf]
      · simp [h]
    | succ n =>
      rcases List.mem_cons.1 h with rfl | h
      · simp
      · simp [ih h n]

/-- Every change of a difference is shown by a hunk. -/
theorem exists_mem_hunks {s : Stretch} (hs : s.isEqual = false) {ss : List Stretch} (h : s ∈ ss) :
    ∃ k ∈ hunks ss, s ∈ k := by
  refine exists_mem_cutHunks hs _ [] ?_
  refine mem_modify ?_ (mem_modify ?_ h _) _
  · simp [keepStart, hs]
  · simp [keepEnd, hs]

end DefectScan.Patch
