import DefectScan.Parse.Reading
import Mathlib.Algebra.GroupWithZero.Nat

/-!
# Places of a text

A place is known by the text before it (`Position.IsIn`). Two facts make tokens keep to the places of
a text: the rest that is looked up behind a place is what really stands there (`cursor_isIn`), and
all that the lexer does with a cursor is to move it over characters (`Cursor.IsIn.skip`). So from a
place of a text the next token begins and ends at places of it (`nextToken_isIn`).
-/

namespace DefectScan.Parse

/-! ## Places of a text -/

/-- The place behind some text at the start. -/
def Position.behind (text : List Char) : Position := text.foldl Position.past .start

/-- A place of a text: the one behind a part of it. -/
def Position.IsIn (text : List Char) (p : Position) : Prop :=
  ∃ pre post, text = pre ++ post ∧ p = .behind pre

/-- A cursor that stands in a text, with what is ahead there. -/
def Cursor.IsIn (text : List Char) (c : Cursor) : Prop :=
  ∃ pre, text = pre ++ c.rest ∧ c.position = .behind pre

theorem Position.isIn_start (text : List Char) : Position.IsIn text .start :=
  ⟨[], text, rfl, rfl⟩

theorem Cursor.IsIn.position {text : List Char} {c : Cursor} (h : c.IsIn text) :
    c.position.IsIn text := by
  obtain ⟨pre, htext, hposition⟩ := h
  exact ⟨pre, c.rest, htext, hposition⟩

theorem Position.behind_append (pre : List Char) (c : Char) :
    behind (pre ++ [c]) = (behind pre).past c := by
  rw [behind, List.foldl_append]
  rfl

theorem Cursor.IsIn.skip {text : List Char} {c : Cursor} (h : c.IsIn text) (n : Nat) :
    (c.skip n).IsIn text := by
  induction n generalizing c with
  | zero => exact h
  | succ n ih =>
    unfold Cursor.skip
    split
    · exact h
    · next x rest hrest =>
      apply ih
      obtain ⟨pre, htext, hposition⟩ := h
      refine ⟨pre ++ [x], ?_, ?_⟩
      · rw [htext, hrest]
        simp
      · rw [Position.behind_append, hposition]

/-! ## What is ahead of a place -/

/-- The number of bytes of a text. -/
def byteLength (text : List Char) : Nat := (text.map Char.utf8Size).sum

theorem Position.byte_foldl (text : List Char) (p : Position) :
    (text.foldl Position.past p).byte = p.byte + byteLength text := by
  induction text generalizing p with
  | nil => rfl
  | cons c rest ih =>
    rw [List.foldl_cons, ih, byteLength, byteLength, List.map_cons, List.sum_cons, ← Nat.add_assoc]
    congr 1
    unfold Position.past
    split <;> rfl

theorem Position.row_foldl (text : List Char) (p : Position) :
    (text.foldl Position.past p).row = p.row + text.count '\n' := by
  induction text generalizing p with
  | nil => rfl
  | cons c rest ih =>
    rw [List.foldl_cons, ih, List.count_cons]
    unfold Position.past
    by_cases hc : c = '\n'
    · simp [hc]
      omega
    · simp [hc]

/-- The rest of a text behind each byte. -/
def tailsOf : List Char → List (List Char)
  | [] => []
  | c :: rest => List.replicate c.utf8Size (c :: rest) ++ tailsOf rest

theorem Source.toList_go (text : List Char) (acc : Array (List Char)) :
    (Source.ofText.go text acc).toList = acc.toList ++ tailsOf text := by
  induction text generalizing acc with
  | nil => simp [Source.ofText.go, tailsOf]
  | cons c rest ih =>
    rw [Source.ofText.go, ih, tailsOf]
    simp

theorem getElem?_tailsOf (pre post : List Char) :
    (tailsOf (pre ++ post) ++ [[]])[byteLength pre]? = some post := by
  induction pre with
  | nil =>
    cases post with
    | nil => rfl
    | cons c rest =>
      have hpos := c.utf8Size_pos
      rw [List.nil_append, tailsOf, List.append_assoc, List.getElem?_append_left]
      · rw [List.getElem?_replicate]
        exact if_pos hpos
      · rw [List.length_replicate]
        exact hpos
  | cons c pre ih =>
    rw [List.cons_append, tailsOf, List.append_assoc, List.getElem?_append_right]
    · rw [List.length_replicate]
      have hbyte : byteLength (c :: pre) - c.utf8Size = byteLength pre := by
        rw [byteLength, List.map_cons, List.sum_cons]
        exact Nat.add_sub_cancel_left ..
      rw [hbyte, ih]
    · rw [List.length_replicate, byteLength, List.map_cons, List.sum_cons]
      exact Nat.le_add_right ..

theorem Source.cursor_isIn {text : List Char} {p : Position} (h : p.IsIn text) :
    ((Source.ofText text).cursor p).IsIn text := by
  obtain ⟨pre, post, htext, hp⟩ := h
  have hbyte : p.byte = byteLength pre := by
    rw [hp, Position.behind, Position.byte_foldl]
    exact Nat.zero_add _
  have hrest : (Source.ofText text).tails.getD p.byte [] = post := by
    rw [Array.getD_eq_getD_getElem?, ← Array.getElem?_toList, Source.ofText, Array.toList_push,
      Source.toList_go, List.nil_append, hbyte, htext, getElem?_tailsOf]
    rfl
  refine ⟨pre, ?_, hp⟩
  rw [Source.cursor, hrest, htext]

/-! ## Tokens -/

section
open Grammar

variable {text : List Char} {c : Cursor}

theorem scanFrom_isIn {g : Table} {expected : TerminalSet} {blank continued : Bool} {fuel : Nat}
    {f : Found} (h : c.IsIn text) (hf : scanFrom g expected blank continued c fuel = some f) :
    f.start.IsIn text := by
  induction fuel generalizing c blank continued with
  | zero => cases hf
  | succ fuel ih =>
    unfold scanFrom at hf
    split at hf
    · split at hf
      · cases hf
        exact h
      · cases hf
    · split at hf
      · cases hf
        exact h
      · split at hf
        · exact ih (h.skip _) hf
        · cases hf

theorem skipBlanks_isIn (h : c.IsIn text) (fuel : Nat) : (skipBlanks fuel c).IsIn text := by
  induction fuel generalizing c with
  | zero => exact h
  | succ fuel ih =>
    unfold skipBlanks
    split
    · exact ih (h.skip _)
    · exact h

theorem strayEnd_isIn (g : Table) (h : c.IsIn text) (fuel : Nat) :
    (strayEnd g fuel c).IsIn text := by
  induction fuel generalizing c with
  | zero => exact h
  | succ fuel ih =>
    unfold strayEnd
    split
    · exact h
    · simp only
      split
      · exact h.skip 1
      · exact ih ((h.skip 1).skip _)

theorem nextToken_isIn (g : Table) (expected : TerminalSet) (h : c.IsIn text) :
    (nextToken g expected c).start.IsIn text ∧ (nextToken g expected c).stop.IsIn text := by
  unfold nextToken
  split
  · next f hf =>
    have hstart : f.start.IsIn text := by
      rcases Option.or_eq_some_iff.mp (Option.orElse_eq_or ▸ hf) with hf | ⟨-, hf⟩
      · exact scanFrom_isIn h hf
      · exact scanFrom_isIn h hf
    split
    · exact ⟨hstart, hstart.skip _⟩
    · exact ⟨hstart, hstart.skip _⟩
  · have hstart := skipBlanks_isIn h c.rest.length
    exact ⟨hstart, strayEnd_isIn g hstart _⟩

end

end DefectScan.Parse
