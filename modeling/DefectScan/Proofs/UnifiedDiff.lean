import Mathlib.Data.List.Forall2
import DefectScan.Proofs.Hunks
import DefectScan.Proofs.MarkedLines
import DefectScan.Proofs.MiddlePoint

/-!
# Patches

A hunk has its places in two texts and lists lines of both (`Hunk`). Hunks are applied by copying
the lines before each, checking that its old lines are there and putting its new lines in their
place (`applyHunks`). The hunks that a patch prints (`Describes`) are in order, apart from each
other and tight, they turn the source into the patched text and, reversed, the patched text into the
source, and there are none exactly if the two texts are equal:

    applyFixes source fixes = .ok patched →
      ∃ hs texts, patch path source fixes = .ok (names ++ texts.flatten) ∧
        Describes hs texts source patched

The ranges in the header of a hunk are taken from its first and last part. If the diff only deletes
or only inserts, they are right. Else the range in the old text is right if both parts list old
lines, and the range in the new text if both list new lines; for a hunk that begins or ends with
lines that are only deleted or only inserted they may be wrong.
-/

namespace DefectScan.Patch

/-! ## Hunks as they are meant -/

abbrev Line := List Char

/-- What a hunk lists: lines of both texts, or old lines that become new ones. -/
inductive Part
  | same (lines : List Line)
  | change (deleted inserted : List Line)
deriving DecidableEq, Repr

namespace Part

def isSame : Part → Bool
  | same _ => true
  | change _ _ => false

def old : Part → List Line
  | same lines => lines
  | change deleted _ => deleted

def new : Part → List Line
  | same lines => lines
  | change _ inserted => inserted

/-- The lines that are only in the old text. -/
def deleted : Part → List Line
  | same _ => []
  | change deleted _ => deleted

/-- The lines that are only in the new text. -/
def inserted : Part → List Line
  | same _ => []
  | change _ inserted => inserted

def reverse : Part → Part
  | same lines => same lines
  | change deleted inserted => change inserted deleted

/-- The lines with their marks. -/
def marked : Part → List (Char × Line)
  | same lines => lines.map (' ', ·)
  | change deleted inserted => deleted.map ('-', ·) ++ inserted.map ('+', ·)

end Part

/-- The number of lines before it in each text, and what it lists. -/
structure Hunk where
  old : Nat
  new : Nat
  parts : List Part
deriving DecidableEq, Repr

namespace Hunk

def oldLines (h : Hunk) : List Line := h.parts.flatMap Part.old

def newLines (h : Hunk) : List Line := h.parts.flatMap Part.new

def reverse (h : Hunk) : Hunk := ⟨h.new, h.old, h.parts.map Part.reverse⟩

/-- The hunk ends before the other begins, in both texts. -/
def Before (h k : Hunk) : Prop :=
  h.old + h.oldLines.length < k.old ∧ h.new + h.newLines.length < k.new

/-- There is a change, with at most `context` lines of both texts on each side of it. -/
structure IsTight (h : Hunk) : Prop where
  changed : ∃ p ∈ h.parts, p.isSame = false
  first : ∀ ls, h.parts.head? = some (.same ls) → ls.length ≤ context
  last : ∀ ls, h.parts.getLast? = some (.same ls) → ls.length ≤ context
  inner : ∀ ls, .same ls ∈ h.parts → ls.length ≤ 2 * context
  alternating : h.parts.IsChain fun p q => p.isSame ≠ q.isSame

/-- The first part and the last list lines of one of the texts. -/
def EndsList (side : Part → List Line) (h : Hunk) : Prop :=
  (∀ p ∈ h.parts.head?, side p ≠ []) ∧ ∀ p ∈ h.parts.getLast?, side p ≠ []

/-- The text shows the hunk: a header with two ranges, and lines that read back as the hunk's. The
ranges are the hunk's, if all are or if the parts at its ends list lines of that text. -/
def Printed (exact : Prop) (h : Hunk) (text : List Char) : Prop :=
  ∃ (old new : Nat × Nat) (body : List Char),
    text = ("@@ -" ++ rangeText old.1 old.2 ++ " +" ++ rangeText new.1 new.2 ++ " @@\n").toList
      ++ body ∧
    readMarked body = some (h.parts.flatMap Part.marked) ∧
    (exact ∨ h.EndsList Part.old → old = (h.old, h.oldLines.length)) ∧
    (exact ∨ h.EndsList Part.new → new = (h.new, h.newLines.length))

end Hunk

/-- The hunks only insert lines or only delete lines. -/
def OneSided (hs : List Hunk) : Prop :=
  (∀ h ∈ hs, ∀ p ∈ h.parts, p.deleted = []) ∨ ∀ h ∈ hs, ∀ p ∈ h.parts, p.inserted = []

/-- Applies hunks to the lines of a text from line `n` on. -/
def applyHunks : Nat → List Line → List Hunk → Option (List Line)
  | _, lines, [] => some lines
  | n, lines, h :: hs =>
    let copied := lines.take (h.old - n)
    let rest := lines.drop (h.old - n)
    if n ≤ h.old ∧ h.old - n ≤ lines.length ∧ h.oldLines <+: rest then
      (applyHunks (h.old + h.oldLines.length) (rest.drop h.oldLines.length) hs).map fun ls =>
        copied ++ h.newLines ++ ls
    else none

def applyToText (hs : List Hunk) (text : List Char) : Option (List Char) :=
  (applyHunks 0 (terminated text) hs).map List.flatten

/-- The hunks, shown by the texts, make up a diff from one text to another. -/
structure Describes (hs : List Hunk) (texts : List (List Char)) (old new : List Char) : Prop where
  printed : List.Forall₂ (Hunk.Printed (OneSided hs)) hs texts
  tight : ∀ h ∈ hs, h.IsTight
  ordered : hs.Pairwise Hunk.Before
  applied : applyToText hs old = some new
  reversed : applyToText (hs.map Hunk.reverse) new = some old
  none_iff : hs = [] ↔ old = new

/-! ## Applying hunks -/

/-- The hunks lead from old lines to new ones, which begin at two places. At least `g` lines stand
before the first hunk and at least one before each other. -/
inductive Patches : Nat → Nat → Nat → List Line → List Line → List Hunk → Prop
  | done {g i j : Nat} (ls : List Line) : Patches g i j ls ls []
  | hunk {g i j : Nat} {gap as bs : List Line} {h : Hunk} {hs : List Hunk} (hgap : g ≤ gap.length)
      (hold : h.old = i + gap.length) (hnew : h.new = j + gap.length)
      (hrest : Patches 1 (h.old + h.oldLines.length) (h.new + h.newLines.length) as bs hs) :
      Patches g i j (gap ++ (h.oldLines ++ as)) (gap ++ (h.newLines ++ bs)) (h :: hs)

theorem Patches.applyHunks {g i j : Nat} {as bs : List Line} {hs : List Hunk}
    (h : Patches g i j as bs hs) : applyHunks i as hs = some bs := by
  induction h with
  | done ls => rfl
  | hunk hgap hold hnew _ ih =>
    rename_i i j gap as bs h hs _
    have hcopied : h.old - i = gap.length := by omega
    rw [Patch.applyHunks, hcopied, List.take_left, List.drop_left, List.drop_left, ih, if_pos]
    · simp
    · exact ⟨by omega, by simp, List.prefix_append _ _⟩

@[simp] theorem Part.old_reverse (p : Part) : p.reverse.old = p.new := by
  cases p <;> rfl

@[simp] theorem Part.new_reverse (p : Part) : p.reverse.new = p.old := by
  cases p <;> rfl

@[simp] theorem Hunk.oldLines_reverse (h : Hunk) : h.reverse.oldLines = h.newLines := by
  simp [reverse, oldLines, newLines, List.flatMap_map]

@[simp] theorem Hunk.newLines_reverse (h : Hunk) : h.reverse.newLines = h.oldLines := by
  simp [reverse, oldLines, newLines, List.flatMap_map]

theorem Patches.reverse {g i j : Nat} {as bs : List Line} {hs : List Hunk}
    (h : Patches g i j as bs hs) : Patches g j i bs as (hs.map Hunk.reverse) := by
  induction h with
  | done ls => exact .done ls
  | hunk hgap hold hnew _ ih =>
    rename_i i j gap as bs h hs _
    have hrest : Patches 1 (h.reverse.old + h.reverse.oldLines.length)
        (h.reverse.new + h.reverse.newLines.length) bs as (hs.map Hunk.reverse) := by
      rw [Hunk.oldLines_reverse, Hunk.newLines_reverse]
      exact ih
    have := Patches.hunk (h := h.reverse) hgap hnew hold hrest
    rwa [Hunk.oldLines_reverse, Hunk.newLines_reverse] at this

theorem Patches.le_of_mem {g i j : Nat} {as bs : List Line} {hs : List Hunk}
    (h : Patches g i j as bs hs) : ∀ k ∈ hs, i + g ≤ k.old ∧ j + g ≤ k.new := by
  induction h with
  | done ls => exact fun k hk => absurd hk List.not_mem_nil
  | hunk hgap hold hnew _ ih =>
    intro k hk
    rcases List.mem_cons.1 hk with rfl | hk
    · omega
    · have := ih k hk
      omega

theorem Patches.ordered {g i j : Nat} {as bs : List Line} {hs : List Hunk}
    (h : Patches g i j as bs hs) : hs.Pairwise Hunk.Before := by
  induction h with
  | done ls => exact .nil
  | hunk hgap hold hnew hrest ih =>
    refine .cons ?_ ih
    intro k hk
    have := hrest.le_of_mem k hk
    exact ⟨by omega, by omega⟩

/-! ## The lines of a stretch -/

theorem extract_append (lines : List Line) {i j k : Nat} (hij : i ≤ j) (hjk : j ≤ k) :
    lines.extract i j ++ lines.extract j k = lines.extract i k := by
  obtain ⟨m, rfl⟩ := Nat.exists_eq_add_of_le hij
  obtain ⟨n, rfl⟩ := Nat.exists_eq_add_of_le hjk
  have hk : i + m + n - i = m + n := by omega
  rw [List.extract_eq_take_drop, List.extract_eq_take_drop, List.extract_eq_take_drop, hk,
    Nat.add_sub_cancel_left, Nat.add_sub_cancel_left, List.take_add, List.drop_drop]

theorem extract_append_drop (lines : List Line) {i j : Nat} (h : i ≤ j) :
    lines.extract i j ++ lines.drop j = lines.drop i := by
  obtain ⟨n, rfl⟩ := Nat.exists_eq_add_of_le h
  rw [List.extract_eq_take_drop, Nat.add_sub_cancel_left, ← List.drop_drop, List.take_append_drop]

theorem length_extract {lines : List Line} {i j : Nat} (h : j ≤ lines.length) :
    (lines.extract i j).length = j - i := by
  rw [List.extract_eq_take_drop, List.length_take, List.length_drop]
  omega

section

variable {as bs : List Line} {K : Tag → Prop}

theorem getElem?_of_sameAt {i j : Nat} (h : sameAt as.toArray bs.toArray i j = true) :
    as[i]? = bs[j]? ∧ i < as.length ∧ j < bs.length := by
  simp only [sameAt, List.getElem?_toArray] at h
  split at h
  · next x y hx hy =>
    rw [hx, hy, eq_of_beq h]
    exact ⟨rfl, (List.getElem?_eq_some_iff.1 hx).1, (List.getElem?_eq_some_iff.1 hy).1⟩
  · cases h

theorem SameRun.extract_eq {i j n : Nat} (h : SameRun as.toArray bs.toArray i j n) :
    as.extract i (i + n) = bs.extract j (j + n) := by
  apply List.ext_getElem?
  intro k
  simp only [List.extract_eq_take_drop, Nat.add_sub_cancel_left, List.getElem?_take,
    List.getElem?_drop]
  split
  · next hk => exact (getElem?_of_sameAt (h k hk)).1
  · rfl

/-- What a stretch lists. -/
def Stretch.part (as bs : List Line) (s : Stretch) : Part :=
  let old := as.extract s.old (s.old + s.oldLength)
  if s.isEqual then .same old else .change old (bs.extract s.new (s.new + s.newLength))

theorem Cut.le {α : Type} [BEq α] {old new : Array α} {i j i' j' : Nat} {ss : List Stretch}
    (h : Cut old new K i j ss i' j') : i ≤ i' ∧ j ≤ j' := by
  induction h with
  | nil => omega
  | equal => omega
  | change => omega

theorem Cut.oldLines {i j i' j' : Nat} {ss : List Stretch}
    (h : Cut as.toArray bs.toArray K i j ss i' j') :
    (ss.map (Stretch.part as bs)).flatMap Part.old = as.extract i i' := by
  induction h with
  | nil => simp
  | equal hpos hsame hrest ih =>
    rename_i i j n i' j' ss
    have hle := hrest.le
    rw [List.map_cons, List.flatMap_cons, ih]
    exact extract_append as (Nat.le_add_right i n) hle.1
  | change hpos hold hnew hplace hrest ih =>
    rename_i i j n m p q i' j' ss
    have hle := hrest.le
    rw [List.map_cons, List.flatMap_cons, ih]
    have hp : as.extract p (p + n) = as.extract i (i + n) := by
      rcases Nat.eq_zero_or_pos n with rfl | hn
      · simp
      · rw [hold hn]
    show as.extract p (p + n) ++ as.extract (i + n) i' = as.extract i i'
    rw [hp, extract_append as (Nat.le_add_right i n) hle.1]

theorem Cut.newLines {i j i' j' : Nat} {ss : List Stretch}
    (h : Cut as.toArray bs.toArray K i j ss i' j') :
    (ss.map (Stretch.part as bs)).flatMap Part.new = bs.extract j j' := by
  induction h with
  | nil => simp
  | equal hpos hsame hrest ih =>
    rename_i i j n i' j' ss
    have hle := hrest.le
    rw [List.map_cons, List.flatMap_cons, ih]
    show as.extract i (i + n) ++ bs.extract (j + n) j' = bs.extract j j'
    rw [hsame.extract_eq, extract_append bs (Nat.le_add_right j n) hle.2]
  | change hpos hold hnew hplace hrest ih =>
    rename_i i j n m p q i' j' ss
    have hle := hrest.le
    rw [List.map_cons, List.flatMap_cons, ih]
    have hq : bs.extract q (q + m) = bs.extract j (j + m) := by
      rcases Nat.eq_zero_or_pos m with rfl | hm
      · simp
      · rw [hnew hm]
    show bs.extract q (q + m) ++ bs.extract (j + m) j' = bs.extract j j'
    rw [hq, extract_append bs (Nat.le_add_right j m) hle.2]

/-- A hunk at its places, with the lines of its stretches. -/
def Located.hunk (as bs : List Line) (k : Located) : Hunk :=
  ⟨k.old, k.new, k.stretches.map (Stretch.part as bs)⟩

theorem Hunked.le {α : Type} [BEq α] {old new : Array α} {g i j i' j' : Nat} {ks : List Located}
    (h : Hunked old new K g i j ks i' j') : i ≤ i' ∧ j ≤ j' := by
  induction h with
  | done => omega
  | hunk _ _ hcut _ ih =>
    have := hcut.le
    omega

/-- The hunks of a difference lead from the old lines to the new ones. -/
theorem Hunked.patches {g i j i' j' : Nat} {ks : List Located}
    (h : Hunked as.toArray bs.toArray K g i j ks i' j') (hi : i' = as.length)
    (hj : j' = bs.length) :
    Patches g i j (as.drop i) (bs.drop j) (ks.map (Located.hunk as bs)) := by
  induction h with
  | done hsame =>
    rename_i g i j n
    rw [← extract_append_drop as (Nat.le_add_right i n), ← extract_append_drop bs (Nat.le_add_right j n),
      hsame.extract_eq, hi, hj]
    simp only [List.drop_length, List.append_nil]
    exact .done _
  | hunk hgap hsame hcut hrest ih =>
    rename_i g i j n p q i' j' ss ks
    have hle := hcut.le
    have hle' := hrest.le
    have hold : (Located.hunk as bs ⟨i + n, j + n, ss⟩).oldLines = as.extract (i + n) p := hcut.oldLines
    have hnew : (Located.hunk as bs ⟨i + n, j + n, ss⟩).newLines = bs.extract (j + n) q := hcut.newLines
    have hgapLength : (as.extract i (i + n)).length = n := by
      rw [length_extract (by omega), Nat.add_sub_cancel_left]
    rw [← extract_append_drop as (Nat.le_add_right i n), ← extract_append_drop bs (Nat.le_add_right j n),
      ← hsame.extract_eq, ← extract_append_drop as hle.1, ← extract_append_drop bs hle.2, ← hold, ← hnew]
    -- the places of the rest follow from how many lines the hunk takes away and puts in
    refine .hunk (by omega) ?_ ?_ ?_
    · rw [hgapLength]
      rfl
    · rw [hgapLength]
      rfl
    · rw [hold, hnew, length_extract (by omega), length_extract (by omega)]
      show Patches 1 (i + n + (p - (i + n))) (j + n + (q - (j + n))) _ _ _
      rw [Nat.add_sub_cancel' hle.1, Nat.add_sub_cancel' hle.2]
      exact ih hi hj

/-! ## The text of a hunk -/

theorem map_getD_range {ls : List Line} {start n : Nat} (h : start + n ≤ ls.length) :
    (List.range n).map (fun i => ls.toArray.getD (start + i) []) = ls.extract start (start + n) := by
  apply List.ext_getElem?
  intro k
  simp only [List.extract_eq_take_drop, Nat.add_sub_cancel_left, List.getElem?_map,
    List.getElem?_take, List.getElem?_drop]
  by_cases hk : k < n
  · have hlt : start + k < ls.length := by omega
    rw [if_pos hk, List.getElem?_range hk, List.getElem?_eq_getElem hlt]
    simp [hlt]
  · rw [if_neg hk, List.getElem?_eq_none (by simpa using hk)]
    rfl

theorem linesText_eq (mark : Char) (ls : List Line) (start n : Nat)
    (h : n = 0 ∨ start + n ≤ ls.length) :
    linesText mark ls.toArray start n = markedText ((ls.extract start (start + n)).map (mark, ·)) := by
  rcases h with rfl | h
  · simp [linesText, markedText]
  · rw [← map_getD_range h, markedText, List.flatMap_map, List.flatMap_map]
    rfl

theorem markedText_append (xs ys : List (Char × Line)) :
    markedText (xs ++ ys) = markedText xs ++ markedText ys :=
  List.flatMap_append

theorem Cut.body {i j i' j' : Nat} {ss : List Stretch}
    (h : Cut as.toArray bs.toArray K i j ss i' j') (hi : i' ≤ as.length) (hj : j' ≤ bs.length) :
    (ss.map (stretchText as.toArray bs.toArray)).flatten
      = markedText ((ss.map (Stretch.part as bs)).flatMap Part.marked) := by
  induction h with
  | nil => rfl
  | equal hpos hsame hrest ih =>
    rename_i i j n i' j' ss
    have hle := hrest.le
    have hlines := linesText_eq ' ' as i n (.inr (by omega))
    rw [List.map_cons, List.flatten_cons, ih hi hj, List.map_cons, List.flatMap_cons,
      markedText_append]
    exact congrArg (· ++ _) hlines
  | change hpos hold hnew hplace hrest ih =>
    rename_i i j n m p q i' j' ss
    have hle := hrest.le
    have hdeleted := linesText_eq '-' as p n (by omega)
    have hinserted := linesText_eq '+' bs q m (by omega)
    rw [List.map_cons, List.flatten_cons, ih hi hj, List.map_cons, List.flatMap_cons,
      markedText_append]
    refine congrArg (· ++ _) ?_
    show linesText '-' as.toArray p n ++ linesText '+' bs.toArray q m
      = markedText ((as.extract p (p + n)).map ('-', ·) ++ (bs.extract q (q + m)).map ('+', ·))
    rw [markedText_append, hdeleted, hinserted]

theorem mem_of_mem_extract {ls : List Line} {i j : Nat} {l : Line} (h : l ∈ ls.extract i j) :
    l ∈ ls := by
  rw [List.extract_eq_take_drop] at h
  exact List.mem_of_mem_drop (List.mem_of_mem_take h)

/-- Every line that a stretch lists is marked, and it is a line of one of the texts. -/
theorem isMarked_of_mem_part (has : ∀ l ∈ as, IsLine l) (hbs : ∀ l ∈ bs, IsLine l) (s : Stretch) :
    ∀ x ∈ (s.part as bs).marked, IsMarked x := by
  have hmark : ∀ (mark : Char) (ls : List Line) (i j : Nat), mark ∈ [' ', '-', '+'] →
      (∀ l ∈ ls, IsLine l) → ∀ x ∈ (ls.extract i j).map (mark, ·), IsMarked x := by
    intro mark ls i j hmark hls x hx
    obtain ⟨l, hl, rfl⟩ := List.mem_map.1 hx
    exact ⟨hmark, hls l (mem_of_mem_extract hl)⟩
  intro x hx
  unfold Stretch.part at hx
  split at hx
  · exact hmark ' ' as _ _ (by decide) has x hx
  · rcases List.mem_append.1 hx with hx | hx
    · exact hmark '-' as _ _ (by decide) has x hx
    · exact hmark '+' bs _ _ (by decide) hbs x hx

theorem pos_of_extract_ne_nil {ls : List Line} {start n : Nat}
    (h : ls.extract start (start + n) ≠ []) : 0 < n := by
  apply Nat.pos_of_ne_zero
  rintro rfl
  exact h (by simp)

/-- A first stretch that lists lines of a text begins where the hunk begins in it. -/
theorem Cut.head_place {i j i' j' : Nat} {s : Stretch} {ss : List Stretch}
    (h : Cut as.toArray bs.toArray K i j (s :: ss) i' j') :
    (¬(K .delete ∧ K .insert) ∨ (s.part as bs).old ≠ [] → s.old = i) ∧
      (¬(K .delete ∧ K .insert) ∨ (s.part as bs).new ≠ [] → s.new = j) := by
  cases h with
  | equal => exact ⟨fun _ => rfl, fun _ => rfl⟩
  | change _ hold hnew hplace =>
    constructor
    · rintro (hexact | hlists)
      · exact (hplace.resolve_left hexact).1
      · exact hold (pos_of_extract_ne_nil hlists)
    · rintro (hexact | hlists)
      · exact (hplace.resolve_left hexact).2
      · exact hnew (pos_of_extract_ne_nil hlists)

/-- A last stretch that lists lines of a text ends where the hunk ends in it. -/
theorem Cut.last_place {i j i' j' : Nat} {s : Stretch} {ss : List Stretch}
    (h : Cut as.toArray bs.toArray K i j (ss ++ [s]) i' j') :
    (¬(K .delete ∧ K .insert) ∨ (s.part as bs).old ≠ [] → s.old + s.oldLength = i') ∧
      (¬(K .delete ∧ K .insert) ∨ (s.part as bs).new ≠ [] → s.new + s.newLength = j') := by
  obtain ⟨p, q, -, hlast⟩ := h.of_append
  have hplace := hlast.head_place
  cases hlast with
  | equal _ _ hnil =>
    cases hnil
    exact ⟨fun _ => rfl, fun _ => rfl⟩
  | change _ _ _ _ hnil =>
    cases hnil
    exact ⟨fun h => congrArg (· + _) (hplace.1 h), fun h => congrArg (· + _) (hplace.2 h)⟩

/-- The text of a hunk shows it. -/
theorem Cut.printed {i j i' j' : Nat} {ss : List Stretch} {exact : Prop}
    (h : Cut as.toArray bs.toArray K i j ss i' j') (hne : ss ≠ []) (hi : i' ≤ as.length)
    (hj : j' ≤ bs.length) (has : ∀ l ∈ as, IsLine l) (hbs : ∀ l ∈ bs, IsLine l)
    (hexact : exact → ¬(K .delete ∧ K .insert)) :
    Hunk.Printed exact ⟨i, j, ss.map (Stretch.part as bs)⟩
      (hunkText as.toArray bs.toArray ss) := by
  have hle := h.le
  have hmarked : ∀ x ∈ (ss.map (Stretch.part as bs)).flatMap Part.marked, IsMarked x := by
    intro x hx
    obtain ⟨p, hp, hx⟩ := List.mem_flatMap.1 hx
    obtain ⟨s, -, rfl⟩ := List.mem_map.1 hp
    exact isMarked_of_mem_part has hbs s x hx
  -- the ranges of the header are those between the first stretch and the last
  obtain ⟨first, rest, hfirst⟩ := List.exists_cons_of_ne_nil hne
  obtain ⟨front, last, hlast⟩ := (List.eq_nil_or_concat' ss).resolve_left hne
  have hheader : hunkText as.toArray bs.toArray ss = (headerText first last).toList
      ++ (ss.map (stretchText as.toArray bs.toArray)).flatten := by
    rw [hunkText, show ss.headD default = first by rw [hfirst]; rfl,
      show ss.getLastD default = last by rw [hlast, List.getLastD_concat]]
  have hplace := (hfirst ▸ h).head_place
  have hstop := (hlast ▸ h).last_place
  have hends : ∀ side : Part → List Line,
      exact ∨ Hunk.EndsList side ⟨i, j, ss.map (Stretch.part as bs)⟩ →
      (¬(K .delete ∧ K .insert) ∨ side (first.part as bs) ≠ []) ∧
        (¬(K .delete ∧ K .insert) ∨ side (last.part as bs) ≠ []) := by
    rintro side (h | ⟨hhead, htail⟩)
    · exact ⟨.inl (hexact h), .inl (hexact h)⟩
    · exact ⟨.inr (hhead _ (by rw [hfirst]; rfl)), .inr (htail _ (by rw [hlast]; simp))⟩
  refine ⟨(first.old, last.old + last.oldLength - first.old),
    (first.new, last.new + last.newLength - first.new), _, hheader, ?_, ?_, ?_⟩
  · rw [h.body hi hj]
    exact readMarked_markedText hmarked
  · intro hside
    obtain ⟨hhead, htail⟩ := hends Part.old hside
    rw [hplace.1 hhead, hstop.1 htail, Hunk.oldLines, h.oldLines, length_extract (by omega)]
  · intro hside
    obtain ⟨hhead, htail⟩ := hends Part.new hside
    rw [hplace.2 hhead, hstop.2 htail, Hunk.newLines, h.newLines, length_extract (by omega)]

/-- Lines that a stretch deletes or inserts are in its part. -/
theorem Cut.changed_of_shows {i j i' j' : Nat} {ss : List Stretch}
    (h : Cut as.toArray bs.toArray K i j ss i' j') (hi : i' ≤ as.length) (hj : j' ≤ bs.length) :
    ∀ s ∈ ss, (s.Shows .delete → (s.part as bs).deleted ≠ []) ∧
      (s.Shows .insert → (s.part as bs).inserted ≠ []) := by
  induction h with
  | nil => exact fun s hs => absurd hs List.not_mem_nil
  | equal _ _ _ ih =>
    refine List.forall_mem_cons.2 ⟨⟨?_, ?_⟩, ih hi hj⟩
    · rintro ⟨⟨⟩, -⟩
    · rintro ⟨⟨⟩, -⟩
  | change hpos hold hnew hplace hrest ih =>
    rename_i i j n m p q i' j' ss
    have hle := hrest.le
    refine List.forall_mem_cons.2 ⟨⟨?_, ?_⟩, ih hi hj⟩
    · rintro ⟨-, hn : 0 < n⟩
      have hplace := hold hn
      have hlength : (as.extract p (p + n)).length = p + n - p := length_extract (by omega)
      show as.extract p (p + n) ≠ []
      exact List.ne_nil_of_length_pos (by omega)
    · rintro ⟨-, hm : 0 < m⟩
      have hplace := hnew hm
      have hlength : (bs.extract q (q + m)).length = q + m - q := length_extract (by omega)
      show bs.extract q (q + m) ≠ []
      exact List.ne_nil_of_length_pos (by omega)

theorem Stretch.isSame_part (s : Stretch) : (s.part as bs).isSame = s.isEqual := by
  unfold Stretch.part
  split
  · next h => exact h.symm
  · next h => exact (Bool.eq_false_iff.2 h).symm

theorem Stretch.length_of_part_eq_same {s : Stretch} {ls : List Line}
    (h : s.part as bs = .same ls) : s.isEqual = true ∧ ls.length ≤ s.oldLength := by
  unfold Stretch.part at h
  split at h
  · next hequal =>
    obtain rfl := Part.same.inj h
    refine ⟨hequal, ?_⟩
    rw [List.extract_eq_take_drop, Nat.add_sub_cancel_left]
    exact List.length_take_le _ _
  · cases h

theorem Tight.hunk {k : Located} (h : Tight k.stretches) : (k.hunk as bs).IsTight := by
  constructor
  · obtain ⟨s, hs, hchange⟩ := h.changed
    exact ⟨s.part as bs, List.mem_map_of_mem hs, (s.isSame_part).trans hchange⟩
  · intro ls hls
    rw [Located.hunk, List.head?_map] at hls
    obtain ⟨s, hs, hpart⟩ := Option.map_eq_some_iff.1 hls
    obtain ⟨hequal, hlength⟩ := Stretch.length_of_part_eq_same hpart
    exact hlength.trans (h.first s hs hequal)
  · intro ls hls
    rw [Located.hunk, List.getLast?_map] at hls
    obtain ⟨s, hs, hpart⟩ := Option.map_eq_some_iff.1 hls
    obtain ⟨hequal, hlength⟩ := Stretch.length_of_part_eq_same hpart
    exact hlength.trans (h.last s hs hequal)
  · intro ls hls
    obtain ⟨s, hs, hpart⟩ := List.mem_map.1 hls
    obtain ⟨hequal, hlength⟩ := Stretch.length_of_part_eq_same hpart
    exact hlength.trans (h.inner s hs hequal)
  · rw [Located.hunk, List.isChain_map]
    simp only [Stretch.isSame_part]
    exact h.alternating

theorem Hunked.cut_of_mem {α : Type} [BEq α] {old new : Array α} {g i j i' j' : Nat}
    {ks : List Located} (h : Hunked old new K g i j ks i' j') : ∀ k ∈ ks,
      ∃ p q, Cut old new K k.old k.new k.stretches p q ∧ p ≤ i' ∧ q ≤ j' := by
  induction h with
  | done => exact fun k hk => absurd hk List.not_mem_nil
  | hunk hgap hsame hcut hrest ih =>
    intro k hk
    rcases List.mem_cons.1 hk with rfl | hk
    · exact ⟨_, _, hcut, hrest.le⟩
    · exact ih k hk

/-- If hunks only delete or only insert lines, so do the steps that they are made from. -/
theorem Hunked.not_both {g i j : Nat} {ks : List Located} {ops : List Op}
    (h : Hunked as.toArray bs.toArray K g i j ks as.length bs.length)
    (hks : ks.map (·.stretches) = hunks (stretches ⟨none, none, none⟩ ops))
    (hpos : ∀ o ∈ ops, 0 < o.length o.tag) (hone : OneSided (ks.map (Located.hunk as bs))) :
    ¬(.delete ∈ ops.map (·.tag) ∧ .insert ∈ ops.map (·.tag)) := by
  have hshown : ∀ t, t ≠ .equal → t ∈ ops.map (·.tag) →
      ∃ k ∈ ks, ∃ s ∈ k.stretches, s.Shows t := by
    intro t ht hmem
    obtain ⟨s, hs, hshows⟩ := exists_stretch_shows (g := ⟨none, none, none⟩) ht
      (by cases t <;> exact nofun) hpos (.inr hmem)
    obtain ⟨ss, hss, hmem⟩ := exists_mem_hunks hshows.1 hs
    rw [← hks] at hss
    obtain ⟨k, hk, rfl⟩ := List.mem_map.1 hss
    exact ⟨k, hk, s, hmem, hshows⟩
  rintro ⟨hdelete, hinsert⟩
  rcases hone with hone | hone
  · obtain ⟨k, hk, s, hs, hshows⟩ := hshown .delete (by decide) hdelete
    obtain ⟨p, q, hcut, hp, hq⟩ := h.cut_of_mem k hk
    exact (hcut.changed_of_shows hp hq s hs).1 hshows
      (hone _ (List.mem_map_of_mem hk) _ (List.mem_map_of_mem hs))
  · obtain ⟨k, hk, s, hs, hshows⟩ := hshown .insert (by decide) hinsert
    obtain ⟨p, q, hcut, hp, hq⟩ := h.cut_of_mem k hk
    exact (hcut.changed_of_shows hp hq s hs).2 hshows
      (hone _ (List.mem_map_of_mem hk) _ (List.mem_map_of_mem hs))

end

/-! ## The whole diff -/

theorem hunks_diff_self (text : List Char) :
    hunks (stretches ⟨none, none, none⟩ (diff (terminated text).toArray (terminated text).toArray))
      = [] := by
  rw [diff_self, equalStep]
  split
  · simp [stretches, Op.equal, joined, Gathered.changes, Gathered.equals, hunks, cutHunks, keepEnd,
      keepStart]
    omega
  · rfl

/-- The diff of two texts shows hunks that lead from the one to the other. -/
theorem unified_describes (old new : List Char) :
    ∃ hs texts, unified old new = texts.flatten ∧ Describes hs texts old new := by
  have hpath := diff_path (terminated old).toArray (terminated new).toArray
  have hcut := stretches_cut (.change (.inl ⟨rfl, rfl⟩) (.inl ⟨rfl, rfl⟩)) hpath
  have halternating := (stretches_alternating (g := ⟨none, none, none⟩) (.inl rfl)
    (diff (terminated old).toArray (terminated new).toArray)).1
  have htight := hunks_tight halternating
  obtain ⟨ks, hks, hhunked⟩ := hunks_hunked hcut
  rw [← hks] at htight
  have hpatches : Patches 0 0 0 (terminated old) (terminated new)
      (ks.map (Located.hunk (terminated old) (terminated new))) := hhunked.patches rfl rfl
  refine ⟨ks.map (Located.hunk (terminated old) (terminated new)),
    ks.map fun k => hunkText (terminated old).toArray (terminated new).toArray k.stretches, ?_, ?_⟩
  · rw [unified]
    simp only [← hks, List.map_map]
    rfl
  · constructor
    · rw [List.forall₂_map_left_iff, List.forall₂_map_right_iff, List.forall₂_same]
      intro k hk
      obtain ⟨p, q, hcut, hp, hq⟩ := hhunked.cut_of_mem k hk
      obtain ⟨s, hs, -⟩ := (htight k.stretches (List.mem_map_of_mem hk)).changed
      exact hcut.printed (List.ne_nil_of_mem hs) hp hq (fun l => isLine_of_mem_terminated)
        (fun l => isLine_of_mem_terminated) (hhunked.not_both hks hpath.length_pos)
    · intro h hh
      obtain ⟨k, hk, rfl⟩ := List.mem_map.1 hh
      exact (htight k.stretches (List.mem_map_of_mem hk)).hunk
    · exact hpatches.ordered
    · rw [applyToText, hpatches.applyHunks]
      exact congrArg some (flatten_terminated new)
    · rw [applyToText, hpatches.reverse.applyHunks]
      exact congrArg some (flatten_terminated old)
    · constructor
      · intro hnone
        have happlied := hpatches.applyHunks
        rw [hnone] at happlied
        have hlines : terminated old = terminated new := Option.some.inj happlied
        rw [← flatten_terminated old, hlines, flatten_terminated]
      · rintro rfl
        rw [hunks_diff_self, List.map_eq_nil_iff] at hks
        rw [hks]
        rfl

/-- The names of a file before and after. -/
def fileNames (path : String) : List Char := ("--- a/" ++ path ++ "\n+++ b/" ++ path ++ "\n").toList

/-- A patch shows hunks that turn the source into the source with the fixes applied, and back. -/
theorem patch_describes (path : String) {source patched : List Char} {fixes : List Fix}
    (h : applyFixes source fixes = .ok patched) :
    ∃ hs texts, patch path source fixes = .ok (fileNames path ++ texts.flatten) ∧
      Describes hs texts source patched := by
  obtain ⟨hs, texts, htext, hdescribes⟩ := unified_describes source patched
  refine ⟨hs, texts, ?_, hdescribes⟩
  rw [patch, h, ← htext]
  rfl

/-- A patch of a text without a last line feed, whose fix adds a line with a carriage return. -/
theorem patch_describes_unterminated :
    applyFixes "a\nb".toList [⟨.infiniteLoop, 2, "b", "c\r", .insertAfter, ""⟩]
        = .ok "a\nb\nc\r".toList ∧
      ∃ hs texts,
        patch "x.c" "a\nb".toList [⟨.infiniteLoop, 2, "b", "c\r", .insertAfter, ""⟩]
            = .ok (fileNames "x.c" ++ texts.flatten) ∧
          Describes hs texts "a\nb".toList "a\nb\nc\r".toList := by
  have h : applyFixes "a\nb".toList [⟨.infiniteLoop, 2, "b", "c\r", .insertAfter, ""⟩]
      = .ok "a\nb\nc\r".toList := by
    decide +kernel
  exact ⟨h, patch_describes "x.c" h⟩

/-- The header of a hunk that begins with a line only deleted and ends with one only inserted need
not count its lines: this one lists two old lines and two new ones. -/
theorem patch_header_miscounts :
    patch "x.c" "a\nb\n".toList [⟨.bufferOverflow, 1, "a", "b", .replaceLine, "n"⟩]
      = .ok "--- a/x.c\n+++ b/x.c\n@@ -1 +2 @@\n-a\n b\n+b\n".toList := by
  decide +kernel

end DefectScan.Patch
