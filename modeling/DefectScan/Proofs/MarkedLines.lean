import DefectScan.Patch.Unified

/-!
# Marked lines

The lines of a text hold all of it, and a line has its end at its own end only (`IsLine`). In a diff
each line stands behind a mark, and a line without an end is followed by a note that says so.
Reading such lines takes the notes away again and gives back what was written:

    readMarked (markedText lines) = some lines
-/

namespace DefectScan.Patch

/-! ## Lines -/

/-- Characters that end no line, and behind them at most one end. -/
def IsLine (line : List Char) : Prop :=
  ∃ body stop, line = body ++ stop ∧ (∀ c ∈ body, c ≠ '\r' ∧ c ≠ '\n') ∧
    (stop = ['\n'] ∨ stop = ['\r', '\n'] ∨ stop = ['\r'] ∨ stop = [] ∧ body ≠ [])

theorem flatten_terminated_go (text line : List Char) :
    (terminated.go text line).flatten = line.reverse ++ text := by
  fun_induction terminated.go text line with
  | case1 line h => simpa using h
  | case2 line h => simp
  | case3 rest line ih => simp [ih]
  | case4 c rest line _ h ih => simp [ih]
  | case5 c rest line _ h ih => simp [ih]

/-- The lines of a text, one behind the other, are the text. -/
theorem flatten_terminated (text : List Char) : (terminated text).flatten = text :=
  flatten_terminated_go text []

theorem isLine_of_mem_terminated_go {text line l : List Char}
    (hline : ∀ c ∈ line, c ≠ '\r' ∧ c ≠ '\n') (hl : l ∈ terminated.go text line) : IsLine l := by
  fun_induction terminated.go text line with
  | case1 line h => cases hl
  | case2 line h =>
    obtain rfl := List.mem_singleton.1 hl
    refine ⟨line.reverse, [], by simp, fun c hc => hline c (List.mem_reverse.1 hc), ?_⟩
    exact .inr (.inr (.inr ⟨rfl, by simpa using h⟩))
  | case3 rest line ih =>
    rcases List.mem_cons.1 hl with rfl | hl
    · refine ⟨line.reverse, ['\r', '\n'], by simp, fun c hc => hline c (List.mem_reverse.1 hc), ?_⟩
      exact .inr (.inl rfl)
    · exact ih (fun c hc => absurd hc List.not_mem_nil) hl
  | case4 c rest line _ h ih =>
    rcases List.mem_cons.1 hl with rfl | hl
    · refine ⟨line.reverse, [c], by simp, fun c hc => hline c (List.mem_reverse.1 hc), ?_⟩
      simp only [Bool.or_eq_true, decide_eq_true_eq] at h
      rcases h with rfl | rfl
      · exact .inr (.inr (.inl rfl))
      · exact .inl rfl
    · exact ih (fun c hc => absurd hc List.not_mem_nil) hl
  | case5 c rest line _ h ih =>
    refine ih ?_ hl
    intro d hd
    rcases List.mem_cons.1 hd with rfl | hd
    · simpa using h
    · exact hline d hd

theorem isLine_of_mem_terminated {text l : List Char} (hl : l ∈ terminated text) : IsLine l :=
  isLine_of_mem_terminated_go (fun _ hc => absurd hc List.not_mem_nil) hl

theorem terminated_go_append {body : List Char} (hbody : ∀ c ∈ body, c ≠ '\r' ∧ c ≠ '\n')
    (rest line : List Char) :
    terminated.go (body ++ rest) line = terminated.go rest (body.reverse ++ line) := by
  induction body generalizing line with
  | nil => rfl
  | cons c body ih =>
    obtain ⟨hcr, hlf⟩ := hbody c List.mem_cons_self
    rw [List.cons_append, terminated.go, if_neg (by simp [hcr, hlf]),
      ih fun d hd => hbody d (List.mem_cons_of_mem c hd)]
    · simp
    · intro rest' h
      exact absurd h hcr

/-- A line with an end is the first line of a text that begins with it. -/
theorem terminated_append {body stop rest : List Char}
    (hbody : ∀ c ∈ body, c ≠ '\r' ∧ c ≠ '\n')
    (hstop : stop = ['\n'] ∨ stop = ['\r', '\n'] ∨ stop = ['\r'])
    (hrest : rest.head? ≠ some '\n') :
    terminated (body ++ stop ++ rest) = (body ++ stop) :: terminated rest := by
  unfold terminated
  rw [List.append_assoc, terminated_go_append hbody]
  rcases hstop with rfl | rfl | rfl
  · rw [List.singleton_append, terminated.go, if_pos (by decide)]
    · simp
    · intro rest' h
      cases h
  · simp [terminated.go]
  · rw [List.singleton_append, terminated.go, if_pos (by decide)]
    · simp
    · intro rest' _ h
      exact hrest (by rw [h]; rfl)

/-! ## Marks -/

/-- What follows a line without an end. -/
def note : List Char := "\\ No newline at end of file\n".toList

theorem head?_note : note.head? = some '\\' := rfl

theorem plain_note : ∀ c ∈ note.dropLast, c ≠ '\r' ∧ c ≠ '\n' := by
  have hall : note.dropLast.all (fun c => c ≠ '\r' && c ≠ '\n') = true := by decide
  intro c hc
  simpa using List.all_eq_true.1 hall c hc

def HasEnd (line : List Char) : Prop := line.getLast? = some '\n' ∨ line.getLast? = some '\r'

instance (line : List Char) : Decidable (HasEnd line) := inferInstanceAs (Decidable (_ ∨ _))

theorem lineText_eq (mark : Char) (line : List Char) :
    lineText mark line = mark :: line ++ if HasEnd line then [] else '\n' :: note := by
  simp only [lineText, HasEnd, Bool.or_eq_true, decide_eq_true_eq]
  rfl

def markedText (xs : List (Char × List Char)) : List Char := xs.flatMap fun x => lineText x.1 x.2

/-- Takes the marks from lines, and with a note the end that the line before it does not have. -/
def unmark : List (List Char) → Option (List (Char × List Char))
  | [] => some []
  | [] :: _ => none
  | [mark :: line] => some [(mark, line)]
  | (mark :: line) :: next :: rest =>
    if next = note then (unmark rest).map ((mark, line.dropLast) :: ·)
    else (unmark (next :: rest)).map ((mark, line) :: ·)

def readMarked (text : List Char) : Option (List (Char × List Char)) := unmark (terminated text)

/-- A line behind one of the marks of a diff. -/
def IsMarked (x : Char × List Char) : Prop := x.1 ∈ [' ', '-', '+'] ∧ IsLine x.2

theorem head?_markedText {xs : List (Char × List Char)} (hxs : ∀ x ∈ xs, IsMarked x) :
    (markedText xs).head? ≠ some '\n' := by
  obtain _ | ⟨x, xs⟩ := xs
  · simp [markedText]
  · have hmark := (hxs x List.mem_cons_self).1
    intro h
    have : x.1 = '\n' := by simpa [markedText, lineText_eq] using h
    rw [this] at hmark
    exact absurd hmark (by decide)

/-- A marked line, and the note behind it if it has no end. -/
def markedLines (x : Char × List Char) : List (List Char) :=
  if HasEnd x.2 then [x.1 :: x.2] else [x.1 :: x.2 ++ ['\n'], note]

theorem terminated_markedText {xs : List (Char × List Char)} (hxs : ∀ x ∈ xs, IsMarked x) :
    terminated (markedText xs) = xs.flatMap markedLines := by
  induction xs with
  | nil => rfl
  | cons x xs ih =>
    have hrest : ∀ y ∈ xs, IsMarked y := fun y hy => hxs y (List.mem_cons_of_mem x hy)
    have hhead := head?_markedText hrest
    obtain ⟨hmark, body, stop, hline, hbody, hstop⟩ := hxs x List.mem_cons_self
    have hmarked : ∀ c ∈ x.1 :: body, c ≠ '\r' ∧ c ≠ '\n' := by
      intro c hc
      rcases List.mem_cons.1 hc with rfl | hc
      · simp only [List.mem_cons, List.not_mem_nil, or_false] at hmark
        rcases hmark with h | h | h <;> rw [h] <;> decide
      · exact hbody c hc
    show terminated (lineText x.1 x.2 ++ markedText xs) = markedLines x ++ xs.flatMap markedLines
    rw [← ih hrest, lineText_eq, markedLines]
    have hended : (stop = ['\n'] ∨ stop = ['\r', '\n'] ∨ stop = ['\r']) →
        terminated (x.1 :: x.2 ++ (if HasEnd x.2 then [] else '\n' :: note) ++ markedText xs)
          = (if HasEnd x.2 then [x.1 :: x.2] else [x.1 :: x.2 ++ ['\n'], note])
            ++ terminated (markedText xs) := by
      intro hstop
      have hend : HasEnd x.2 := by
        rw [hline]
        rcases hstop with rfl | rfl | rfl <;> simp [HasEnd]
      rw [if_pos hend, if_pos hend, List.append_nil, hline]
      exact terminated_append hmarked hstop hhead
    rcases hstop with h | h | h | ⟨rfl, hne⟩
    · exact hended (.inl h)
    · exact hended (.inr (.inl h))
    · exact hended (.inr (.inr h))
    · have hend : ¬HasEnd x.2 := by
        rw [hline, List.append_nil]
        rintro (h | h)
        · exact (hbody _ (List.mem_of_getLast? h)).2 rfl
        · exact (hbody _ (List.mem_of_getLast? h)).1 rfl
      rw [if_neg hend, if_neg hend, hline, List.append_nil]
      -- the line and the note are two lines, each with its line feed
      have hnote : terminated (note ++ markedText xs) = note :: terminated (markedText xs) :=
        terminated_append plain_note (.inl rfl) hhead
      have hfirst : terminated (x.1 :: body ++ ['\n'] ++ (note ++ markedText xs))
          = (x.1 :: body ++ ['\n']) :: terminated (note ++ markedText xs) :=
        terminated_append hmarked (.inl rfl) (by rw [List.head?_append, head?_note]; simp)
      simp only [List.append_assoc, List.cons_append, List.nil_append] at hfirst ⊢
      rw [hfirst, hnote]

theorem unmark_flatMap {xs : List (Char × List Char)} (hxs : ∀ x ∈ xs, IsMarked x) :
    unmark (xs.flatMap markedLines) = some xs := by
  induction xs with
  | nil => rfl
  | cons x xs ih =>
    have hrest : ∀ y ∈ xs, IsMarked y := fun y hy => hxs y (List.mem_cons_of_mem x hy)
    rw [List.flatMap_cons, markedLines]
    split
    · obtain _ | ⟨y, xs⟩ := xs
      · rfl
      · -- the next line has a mark of its own, so it is no note
        have hy : y.1 ≠ '\\' := by
          intro h
          have hmark := (hrest y List.mem_cons_self).1
          rw [h] at hmark
          exact absurd hmark (by decide)
        obtain ⟨l, ls, hls⟩ : ∃ l ls, (y :: xs).flatMap markedLines = (y.1 :: l) :: ls := by
          rw [List.flatMap_cons, markedLines]
          split
          · exact ⟨_, _, rfl⟩
          · exact ⟨_, _, rfl⟩
        rw [hls] at ih ⊢
        have hnote : y.1 :: l ≠ note := fun h => hy (List.cons.inj h).1
        rw [List.singleton_append, unmark, if_neg hnote, ih hrest]
        rfl
    · simp [unmark, ih hrest]

/-- Reading marked lines gives back what was written. -/
theorem readMarked_markedText {xs : List (Char × List Char)} (hxs : ∀ x ∈ xs, IsMarked x) :
    readMarked (markedText xs) = some xs := by
  rw [readMarked, terminated_markedText hxs, unmark_flatMap hxs]

end DefectScan.Patch
