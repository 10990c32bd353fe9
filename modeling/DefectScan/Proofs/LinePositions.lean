import DefectScan.Proofs.MatchedLines

/-!
# Lines at positions

The line of an occurrence is counted by the line feeds before it, and a line is looked up by
splitting the text. The two agree at every position of a text, be it a line feed, the end or the
empty line behind a last line feed:

    o.BeginsAt p → numbered? text o.line = some (o.lineBefore ++ firstLine (o.matched ++ o.after))

Positions are counted in bytes and lie between characters; `p.Splits a b` says that `a` stands before
`p` and `b` behind it.
-/

namespace DefectScan

open Text Text.Lines

/-! ## Positions -/

/-- An occurrence begins at a position of a text. -/
def Occurrence.BeginsAt (o : Occurrence) {text : String} (p : text.Pos) : Prop :=
  p.Splits (String.ofList o.behind.reverse) (String.ofList (o.matched ++ o.after))

namespace Occurrence

/-- Nothing, found between two parts of a text. -/
def between (a b : List Char) : Occurrence := ⟨a.reverse, [], [], b⟩

theorem between_beginsAt {text : String} {p : text.Pos} {a b : String} (h : p.Splits a b) :
    (between a.toList b.toList).BeginsAt p := by
  simpa [BeginsAt, between] using h

theorem BeginsAt.parts {o : Occurrence} {text : String} {p : text.Pos} (h : o.BeginsAt p) :
    text.toList = o.behind.reverse ++ (o.matched ++ o.after) := by
  rw [h.eq_append, String.toList_append, String.toList_ofList, String.toList_ofList]

/-- What makes up a text begins at one of its positions. -/
theorem exists_beginsAt {o : Occurrence} {text : String}
    (h : o.behind.reverse ++ (o.matched ++ o.after) = text.toList) :
    ∃ p : text.Pos, o.BeginsAt p := by
  have htext : text = String.ofList o.behind.reverse ++ String.ofList (o.matched ++ o.after) := by
    rw [← String.ofList_append, h, String.ofList_toList]
  have hvalid := String.Pos.Raw.isValid_iff_exists_append.mpr ⟨_, _, htext, rfl⟩
  exact ⟨⟨_, hvalid⟩, htext, rfl⟩

end Occurrence

/-! ## Lines -/

namespace Text.Lines

/-- The line around a place: back to the last line feed before it, and on to the next. -/
theorem lineAt_of_parts (o : Occurrence) :
    LineAt (o.behind.reverse ++ (o.matched ++ o.after)) o.line
      (o.lineBefore ++ firstLine (o.matched ++ o.after)) (o.behind.dropWhile (· ≠ '\n')).reverse
      ((o.matched ++ o.after).dropWhile (· ≠ '\n')) := by
  have hbehind : o.behind = firstLine o.behind ++ o.behind.dropWhile (· ≠ '\n') :=
    List.takeWhile_append_dropWhile.symm
  have hafter : firstLine (o.matched ++ o.after) ++ (o.matched ++ o.after).dropWhile (· ≠ '\n')
      = o.matched ++ o.after := List.takeWhile_append_dropWhile
  have hbefore : o.lineBefore = (firstLine o.behind).reverse := rfl
  constructor
  · rw [hbefore, List.append_assoc, hafter, ← List.append_assoc _ _ (o.matched ++ o.after),
      ← List.reverse_append, ← hbehind]
  · have hcount := congrArg (List.count '\n') hbehind
    rw [List.count_append, List.count_eq_zero.mpr (not_mem_firstLine _), Nat.zero_add] at hcount
    rw [Occurrence.line, List.count_reverse, hcount]
  · rw [hbefore, List.mem_append, List.mem_reverse, not_or]
    exact ⟨not_mem_firstLine _, not_mem_firstLine _⟩
  · rcases dropWhile_newline_start o.behind with hnil | ⟨rest, hrest⟩
    · exact .inl (by rw [hnil, List.reverse_nil])
    · exact .inr ⟨rest.reverse, by rw [hrest, List.reverse_cons]⟩
  · exact dropWhile_newline_start _

theorem numbered?_eq_none_iff (text : List Char) (n : Nat) :
    numbered? text n = none ↔ n = 0 ∨ count text < n := by
  rw [numbered?]
  split
  · next hzero => simp [hzero]
  · next hpos =>
    rw [List.getElem?_eq_none_iff, count]
    omega

end Text.Lines

namespace Occurrence

/-- The line of an occurrence is looked up as the line around it. -/
theorem BeginsAt.numbered?_line {o : Occurrence} {text : String} {p : text.Pos} (h : o.BeginsAt p) :
    numbered? text.toList o.line = some (o.lineBefore ++ firstLine (o.matched ++ o.after)) := by
  rw [h.parts]
  exact (lineAt_of_parts o).numbered?

/-- Further on in a text the numbers of lines are not smaller. -/
theorem BeginsAt.line_le {o o' : Occurrence} {text : String} {p q : text.Pos} (h : o.BeginsAt p)
    (h' : o'.BeginsAt q) (hle : p ≤ q) : o.line ≤ o'.line := by
  obtain ⟨more, hmore, -⟩ := (h.le_iff_exists_eq_append h').mp hle
  have hcount : o'.behind.count '\n' = o.behind.count '\n' + more.toList.count '\n' := by
    have htext := congrArg (fun s : String => s.toList.count '\n') hmore
    simpa [List.count_append] using htext
  rw [line, line, hcount]
  omega

theorem BeginsAt.line_le_count {o : Occurrence} {text : String} {p : text.Pos} (h : o.BeginsAt p) :
    o.line ≤ count text.toList := by
  rw [count_eq, h.parts, List.count_append, List.count_reverse, line]
  omega

/-- The line with a number begins at a position. -/
theorem exists_beginsAt_line {text : String} {n : Nat} (hpos : 1 ≤ n) (hle : n ≤ count text.toList) :
    ∃ (p : text.Pos) (o : Occurrence), o.BeginsAt p ∧ o.line = n := by
  obtain ⟨line, front, back, hat⟩ := exists_lineAt hpos hle
  have hparts : (between front (line ++ back)).behind.reverse
      ++ ((between front (line ++ back)).matched ++ (between front (line ++ back)).after)
      = text.toList := by
    simp [between, hat.parts]
  obtain ⟨p, hp⟩ := exists_beginsAt hparts
  exact ⟨p, _, hp, by simp [Occurrence.line, between, hat.number]⟩

end Occurrence

/-- Findings have the line of a position. -/
theorem Lexical.exists_beginsAt_of_mem_scan {text : String} {f : Finding} (h : f ∈ scan text) :
    ∃ (p : text.Pos) (o : Occurrence), o.BeginsAt p ∧ f.line = o.line := by
  obtain ⟨r, hr, hf⟩ := List.mem_flatMap.mp h
  obtain ⟨o, ho, rfl⟩ := List.mem_map.mp hf
  have hparts := (Pattern.occurrencesFrom_parts (lawful_of_mem_rules hr) (List.mem_filter.mp ho).1).1
  obtain ⟨p, hp⟩ := Occurrence.exists_beginsAt hparts
  exact ⟨p, o, hp, rfl⟩

/-- Counting lines and looking them up agree. At every position of a text the line that is counted is
found and is the stretch between the line feeds around the position; the numbers grow along the text
and are those from 1 to the number of lines, and no other number has a line. -/
theorem Text.Lines.line_at_position (text : String) :
    (∀ p : text.Pos, ∃ o : Occurrence, o.BeginsAt p) ∧
    (∀ (p : text.Pos) (o : Occurrence), o.BeginsAt p →
      numbered? text.toList o.line = some (o.lineBefore ++ firstLine (o.matched ++ o.after))) ∧
    (∀ (p q : text.Pos) (o o' : Occurrence), o.BeginsAt p → o'.BeginsAt q → p ≤ q →
      o.line ≤ o'.line) ∧
    (∀ n, (∃ (p : text.Pos) (o : Occurrence), o.BeginsAt p ∧ o.line = n) ↔
      1 ≤ n ∧ n ≤ count text.toList) ∧
    (∀ n, numbered? text.toList n = none ↔ n = 0 ∨ count text.toList < n) ∧
    ∀ f ∈ Lexical.scan text, ∃ (p : text.Pos) (o : Occurrence), o.BeginsAt p ∧ f.line = o.line := by
  refine ⟨fun p => ⟨_, Occurrence.between_beginsAt p.splits⟩, fun p o h => h.numbered?_line,
    fun p q o o' h h' hle => h.line_le h' hle, fun n => ⟨?_, ?_⟩,
    fun n => numbered?_eq_none_iff text.toList n, fun f h => Lexical.exists_beginsAt_of_mem_scan h⟩
  · rintro ⟨p, o, h, rfl⟩
    exact ⟨Nat.le_add_left 1 _, h.line_le_count⟩
  · rintro ⟨hpos, hle⟩
    exact Occurrence.exists_beginsAt_line hpos hle

end DefectScan
