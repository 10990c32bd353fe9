import DefectScan.Proofs.SpeltPatterns

/-!
# Blanks written in another way

A respacing writes each blank of a text as blanks, at least one of them and with as many line feeds,
and adds blanks behind the text. The parts of patterns do not see it: they skip blanks or look for
other characters. What they leave is written in the same way,

    mark m (e.written text) = (mark m text).map e.written

and so a pattern that is made of them has the same occurrences, with their parts written in that way
(`occurrences_written`). Blanks in front of the text only stand behind all of them.
-/

namespace DefectScan

open Text Pattern

/-- A way to write the blanks of a text. All other characters are written as they are. -/
structure Respacing where
  spell : Char → List Char
  /-- What is added behind the text. -/
  tail : List Char
  spell_solid : ∀ {c : Char}, isBlank c = false → spell c = [c]
  spell_ne_nil : ∀ c, spell c ≠ []
  spell_blank : ∀ {c : Char}, isBlank c = true → AllBlank (spell c)
  count_spell : ∀ c, (spell c).count '\n' = [c].count '\n'
  tail_blank : AllBlank tail

namespace Respacing

variable (e : Respacing)

/-- A part of a text. -/
def spelt (text : List Char) : List Char := text.flatMap e.spell

/-- A text to its end. -/
def written (text : List Char) : List Char := e.spelt text ++ e.tail

@[simp] theorem spelt_nil : e.spelt [] = [] := rfl

theorem spelt_cons (c : Char) (text : List Char) : e.spelt (c :: text) = e.spell c ++ e.spelt text :=
  List.flatMap_cons

theorem spelt_append (a b : List Char) : e.spelt (a ++ b) = e.spelt a ++ e.spelt b :=
  List.flatMap_append

theorem written_nil : e.written [] = e.tail := rfl

theorem written_cons (c : Char) (text : List Char) :
    e.written (c :: text) = e.spell c ++ e.written text := by
  rw [written, spelt_cons, List.append_assoc]
  rfl

theorem written_cons_solid {c : Char} (hc : isBlank c = false) (text : List Char) :
    e.written (c :: text) = c :: e.written text := by
  rw [written_cons, e.spell_solid hc]
  rfl

theorem written_append (a b : List Char) : e.written (a ++ b) = e.spelt a ++ e.written b := by
  rw [written, spelt_append, List.append_assoc]
  rfl

theorem spelt_solid {text : List Char} (h : ∀ c ∈ text, isBlank c = false) : e.spelt text = text := by
  induction text with
  | nil => rfl
  | cons c cs ih =>
    obtain ⟨hc, hcs⟩ := List.forall_mem_cons.mp h
    rw [spelt_cons, e.spell_solid hc, ih hcs]
    rfl

theorem spelt_ne_nil {text : List Char} (h : text ≠ []) : e.spelt text ≠ [] := by
  obtain ⟨c, cs, rfl⟩ := List.exists_cons_of_ne_nil h
  rw [spelt_cons]
  exact List.append_ne_nil_of_left_ne_nil (e.spell_ne_nil c) _

theorem count_spelt (text : List Char) : (e.spelt text).count '\n' = text.count '\n' := by
  induction text with
  | nil => rfl
  | cons c cs ih =>
    rw [spelt_cons, List.count_append, ih, e.count_spell, ← List.count_append]
    rfl

/-- Characters that are no blanks are neither added nor taken away. -/
theorem mem_spelt_iff {x : Char} (hx : isBlank x = false) {text : List Char} :
    x ∈ e.spelt text ↔ x ∈ text := by
  rw [spelt, List.mem_flatMap]
  constructor
  · rintro ⟨c, hc, hmem⟩
    cases hblank : isBlank c with
    | true => exact absurd hmem (not_mem_of_allBlank (e.spell_blank hblank) hx)
    | false =>
      rw [e.spell_solid hblank, List.mem_singleton] at hmem
      rwa [hmem]
  · exact fun h => ⟨x, h, by rw [e.spell_solid hx]; exact List.mem_singleton_self x⟩

theorem mem_written_iff {x : Char} (hx : isBlank x = false) {text : List Char} :
    x ∈ e.written text ↔ x ∈ text := by
  rw [written, List.mem_append, e.mem_spelt_iff hx]
  exact or_iff_left (not_mem_of_allBlank e.tail_blank hx)

theorem not_mem_spelt {x : Char} (hx : isBlank x = false) {text : List Char} (h : x ∉ text) :
    x ∉ e.spelt text :=
  fun hmem => h ((e.mem_spelt_iff hx).mp hmem)

theorem not_mem_written {x : Char} (hx : isBlank x = false) {text : List Char} (h : x ∉ text) :
    x ∉ e.written text :=
  fun hmem => h ((e.mem_written_iff hx).mp hmem)

/-! ## Parts of patterns -/

/-- A text that begins with a blank, or is empty. -/
def BlankStart (text : List Char) : Prop := ∀ c, text.head? = some c → isBlank c = true

theorem blankStart_of_allBlank {w : List Char} (h : AllBlank w) : BlankStart w :=
  fun c hc => h c (List.mem_of_head? hc)

theorem BlankStart.cons {c : Char} (hc : isBlank c = true) (text : List Char) :
    BlankStart (c :: text) := by
  rintro _ ⟨⟩
  exact hc

theorem BlankStart.append {w : List Char} (hne : w ≠ []) (h : AllBlank w) (text : List Char) :
    BlankStart (w ++ text) := by
  obtain ⟨c, w, rfl⟩ := List.exists_cons_of_ne_nil hne
  exact BlankStart.cons (h c List.mem_cons_self) (w ++ text)

theorem blankStart_written {c : Char} (hc : isBlank c = true) (text : List Char) :
    BlankStart (e.written (c :: text)) := by
  rw [written_cons]
  exact BlankStart.append (e.spell_ne_nil c) (e.spell_blank hc) _

theorem BlankStart.literal {text : List Char} (h : BlankStart text) {c : Char}
    (hc : isBlank c = false) (w : List Char) : literal (c :: w) text = none := by
  cases text with
  | nil => rfl
  | cons d text =>
    have hne : d ≠ c := by
      rintro rfl
      rw [h d rfl] at hc
      cases hc
    rw [Pattern.literal, if_neg hne]

/-- Reading a text that has no blanks. -/
theorem literal_written {w : List Char} (hw : ∀ c ∈ w, isBlank c = false) (text : List Char) :
    literal w (e.written text) = (literal w text).map e.written := by
  induction w generalizing text with
  | nil => rfl
  | cons c w ih =>
    obtain ⟨hc, hw⟩ := List.forall_mem_cons.mp hw
    cases text with
    | nil => exact (blankStart_of_allBlank e.tail_blank).literal hc w
    | cons d text =>
      cases hd : isBlank d with
      | true =>
        rw [(e.blankStart_written hd text).literal hc, (BlankStart.cons hd text).literal hc]
        rfl
      | false =>
        rw [e.written_cons_solid hd, literal, literal]
        split
        · exact ih hw text
        · rfl

/-- A text that is looked for: not empty, and without blanks. -/
def isSolid (w : String) : Bool := !w.toList.isEmpty && w.toList.all fun c => !isBlank c

theorem isSolid_iff {w : String} :
    isSolid w = true ↔ w.toList ≠ [] ∧ ∀ c ∈ w.toList, isBlank c = false := by
  simp [isSolid]

theorem word_written {w : String} (hw : isSolid w = true) (text : List Char) :
    word w (e.written text) = (word w text).map e.written :=
  e.literal_written (isSolid_iff.mp hw).2 text

theorem word_nil {w : String} (hw : isSolid w = true) : word w [] = none := by
  obtain ⟨c, cs, hw⟩ := List.exists_cons_of_ne_nil (isSolid_iff.mp hw).1
  rw [word, hw]
  rfl

theorem blanks_of_allBlank {w : List Char} (h : AllBlank w) (text : List Char) :
    blanks (w ++ text) = blanks text :=
  List.dropWhile_append_of_pos h

theorem blanks_written (text : List Char) :
    blanks (e.written text) = if blanks text = [] then [] else e.written (blanks text) := by
  induction text with
  | nil =>
    rw [written_nil, ← List.append_nil e.tail, blanks_of_allBlank e.tail_blank]
    rfl
  | cons c cs ih =>
    cases hc : isBlank c with
    | true =>
      have hcons : blanks (c :: cs) = blanks cs := List.dropWhile_cons_of_pos hc
      rw [hcons, written_cons, blanks_of_allBlank (e.spell_blank hc), ih]
    | false =>
      have hcons : ∀ t : List Char, blanks (c :: t) = c :: t := by
        intro t
        exact List.dropWhile_cons_of_neg (by simp [hc])
      rw [hcons, if_neg (List.cons_ne_nil c cs), e.written_cons_solid hc, hcons]

/-- What needs a character to begin with can be read behind blanks. -/
theorem read_blanks_written {β : Type} {read : List Char → Option β} {g : β → β}
    (hnil : read [] = none) (hread : ∀ text, read (e.written text) = (read text).map g)
    (text : List Char) : read (blanks (e.written text)) = (read (blanks text)).map g := by
  rw [blanks_written]
  split
  · next h => rw [h, hnil]; rfl
  · exact hread _

theorem mark_written {m : String} (hm : isSolid m = true) (text : List Char) :
    mark m (e.written text) = (mark m text).map e.written :=
  e.read_blanks_written (word_nil hm) (e.word_written hm) text

/-- A word with what follows it. -/
def afterWord (found : List Char × List Char) : List Char × List Char := (found.1, e.written found.2)

theorem BlankStart.someWord {text : List Char} (h : BlankStart text) : someWord text = none := by
  have hhead : ∀ c, text.head? = some c → isWord c = false := fun c hc => isWord_of_isBlank (h c hc)
  have htake : text.takeWhile isWord = [] :=
    (span_eq_iff.mpr ⟨(List.nil_append text).symm, by simp, hhead⟩).1
  simp only [Pattern.someWord, htake]

theorem someWord_written (text : List Char) :
    someWord (e.written text) = (someWord text).map e.afterWord := by
  cases hword : someWord text with
  | none =>
    cases text with
    | nil => exact (blankStart_of_allBlank e.tail_blank).someWord
    | cons c cs =>
      cases hc : isBlank c with
      | true => exact (e.blankStart_written hc cs).someWord
      | false =>
        have hnot : isWord c = false := by
          cases hcword : isWord c with
          | false => rfl
          | true => simp [someWord, hcword] at hword
        rw [e.written_cons_solid hc]
        simp [someWord, hnot]
  | some found =>
    obtain ⟨w, rest⟩ := found
    obtain ⟨hne, rfl, hw, hrest⟩ := someWord_eq_some_iff.mp hword
    have hsolid : ∀ c ∈ w, isBlank c = false := fun c hc => isBlank_of_isWord (hw c hc)
    rw [written_append, e.spelt_solid hsolid]
    refine someWord_eq_some_iff.mpr ⟨hne, rfl, hw, fun c hc => ?_⟩
    cases rest with
    | nil => exact isWord_of_isBlank (blankStart_of_allBlank e.tail_blank c hc)
    | cons d rest =>
      cases hd : isBlank d with
      | true => exact isWord_of_isBlank (e.blankStart_written hd rest c hc)
      | false =>
        rw [e.written_cons_solid hd] at hc
        exact hrest c hc

/-- A word behind at least one blank. -/
def spacedWord (text : List Char) : Option (List Char × List Char) := (someBlanks text).bind someWord

theorem spacedWord_blanks {w : List Char} (hne : w ≠ []) (hw : AllBlank w) (text : List Char) :
    spacedWord (w ++ text) = someWord (blanks text) := by
  obtain ⟨c, w, rfl⟩ := List.exists_cons_of_ne_nil hne
  obtain ⟨hc, hw⟩ := List.forall_mem_cons.mp hw
  rw [spacedWord, List.cons_append, someBlanks, if_pos hc, Option.bind_some, blanks_of_allBlank hw]

theorem spacedWord_written (text : List Char) :
    spacedWord (e.written text) = (spacedWord text).map e.afterWord := by
  cases text with
  | nil =>
    by_cases htail : e.tail = []
    · rw [written_nil, htail]
      rfl
    · rw [written_nil, ← List.append_nil e.tail, spacedWord_blanks htail e.tail_blank]
      rfl
  | cons c cs =>
    cases hc : isBlank c with
    | true =>
      rw [written_cons, spacedWord_blanks (e.spell_ne_nil c) (e.spell_blank hc),
        e.read_blanks_written rfl e.someWord_written, spacedWord, someBlanks, if_pos hc]
      rfl
    | false =>
      rw [e.written_cons_solid hc, spacedWord, spacedWord, someBlanks, someBlanks, hc]
      rfl

/-! ## Up to a character -/

theorem allBlank_nil : AllBlank [] := fun _ hc => absurd hc List.not_mem_nil

/-- Without the blanks behind the text. -/
def bare : Respacing := { e with tail := [], tail_blank := allBlank_nil }

theorem bare_written (text : List Char) : e.bare.written text = e.spelt text :=
  List.append_nil _

theorem run_of_not_mem {x : Char} {a : List Char} (h : x ∉ a) : ∀ c ∈ a, decide (c ≠ x) = true := by
  intro c hc
  refine decide_eq_true ?_
  rintro rfl
  exact h hc

theorem span_cons {x : Char} {a : List Char} (h : x ∉ a) (b : List Char) :
    (a ++ x :: b).takeWhile (· ≠ x) = a ∧ (a ++ x :: b).dropWhile (· ≠ x) = x :: b :=
  span_eq (run_of_not_mem h) (by simp) b

theorem span_of_not_mem {x : Char} {a : List Char} (h : x ∉ a) :
    a.takeWhile (· ≠ x) = a ∧ a.dropWhile (· ≠ x) = [] :=
  span_eq_iff.mpr ⟨(List.append_nil a).symm, run_of_not_mem h, by simp⟩

/-- What stands before a character. -/
theorem exists_takeWhile_written {x : Char} (hx : isBlank x = false) (text : List Char) :
    ∃ e' : Respacing, (e.written text).takeWhile (· ≠ x) = e'.written (text.takeWhile (· ≠ x)) := by
  by_cases hmem : x ∈ text
  · obtain ⟨a, b, rfl, ha⟩ := List.eq_append_cons_of_mem hmem
    refine ⟨e.bare, ?_⟩
    rw [written_append, e.written_cons_solid hx, (span_cons (e.not_mem_spelt hx ha) _).1,
      (span_cons ha b).1, bare_written]
  · refine ⟨e, ?_⟩
    rw [(span_of_not_mem (e.not_mem_written hx hmem)).1, (span_of_not_mem hmem).1]

/-! ## Occurrences -/

/-- What stands behind, last character first, with blanks in front of it. -/
def back (front behind : List Char) : List Char := (front ++ e.spelt behind.reverse).reverse

/-- An occurrence with all its parts written in another way. -/
def moved (front : List Char) (o : Occurrence) : Occurrence :=
  ⟨e.back front o.behind, e.spelt o.matched, o.captured, e.written o.after⟩

/-- What has been read, with what follows it. -/
def hit (h : Hit) : Hit := ⟨h.captured, e.written h.rest⟩

theorem back_append (front m behind : List Char) :
    e.back front (m.reverse ++ behind) = (e.spelt m).reverse ++ e.back front behind := by
  simp only [back, List.reverse_append, List.reverse_reverse, spelt_append, List.append_assoc]

theorem back_cons (front : List Char) (c : Char) (behind : List Char) :
    e.back front (c :: behind) = (e.spell c).reverse ++ e.back front behind := by
  have happend := e.back_append front [c] behind
  rwa [spelt_cons, spelt_nil, List.append_nil] at happend

theorem count_back (front behind : List Char) :
    (e.back front behind).count '\n' = behind.count '\n' + front.count '\n' := by
  rw [back, List.count_reverse, List.count_append, count_spelt, List.count_reverse, Nat.add_comm]

theorem wordBehind_allBlank {w : List Char} (hw : AllBlank w) : wordBehind w = false := by
  cases w with
  | nil => rfl
  | cons c w => exact isWord_of_isBlank (hw c List.mem_cons_self)

theorem allBlank_reverse {w : List Char} (h : AllBlank w) : AllBlank w.reverse :=
  fun c hc => h c (List.mem_reverse.mp hc)

theorem wordBehind_back {front : List Char} (hfront : AllBlank front) (behind : List Char) :
    wordBehind (e.back front behind) = wordBehind behind := by
  cases behind with
  | nil =>
    rw [back, List.reverse_nil, spelt_nil, List.append_nil]
    exact wordBehind_allBlank (allBlank_reverse hfront)
  | cons c behind =>
    rw [back_cons, wordBehind_append (List.reverse_ne_nil_iff.mpr (e.spell_ne_nil c)),
      wordBehind_cons]
    cases hc : isBlank c with
    | true =>
      rw [wordBehind_allBlank (allBlank_reverse (e.spell_blank hc)), isWord_of_isBlank hc]
    | false =>
      rw [e.spell_solid hc]
      rfl

/-- A pattern that reads alike however the blanks are written, and does not begin with one. -/
structure Ignored (p : Pattern) : Prop where
  read_written : ∀ text, p.read (e.written text) = (p.read text).map e.hit
  read_blank : ∀ {c : Char}, isBlank c = true → ∀ text, p.read (c :: text) = none

section
variable {e} {p : Pattern} (h : e.Ignored p) {front : List Char} (hfront : AllBlank front)
include h

theorem Ignored.readAt_blank {c : Char} (hc : isBlank c = true) (behind text : List Char) :
    p.readAt behind (c :: text) = none := by
  rw [readAt, h.read_blank hc]
  exact ite_self none

/-- Nothing is found in blanks. -/
theorem Ignored.occurrencesFrom_blanks {w : List Char} (hw : AllBlank w) (behind text : List Char) :
    p.occurrencesFrom behind (w ++ text) = p.occurrencesFrom (w.reverse ++ behind) text := by
  induction w generalizing behind with
  | nil => rfl
  | cons c w ih =>
    obtain ⟨hc, hw⟩ := List.forall_mem_cons.mp hw
    rw [List.cons_append, occurrencesFrom, h.readAt_blank hc, List.reverse_cons, List.append_assoc]
    exact ih hw (c :: behind)

include hfront

theorem Ignored.readAt_written (behind text : List Char) :
    p.readAt (e.back front behind) (e.written text) = (p.readAt behind text).map e.hit := by
  rw [p.readAt_congr (e.wordBehind_back hfront behind), readAt, readAt, h.read_written]
  split <;> rfl

theorem Ignored.occurrencesFrom_written (hlawful : p.Lawful) (hcons : p.Consuming)
    (behind text : List Char) :
    p.occurrencesFrom (e.back front behind) (e.written text)
      = (p.occurrencesFrom behind text).map (e.moved front) := by
  -- both scans take the same steps, but where one passes a blank the other passes all that it is
  -- written as
  have hscan := scan_occurrencesFrom hlawful behind text
  generalize p.occurrencesFrom behind text = os at hscan ⊢
  induction hscan with
  | done =>
    rw [written_nil, ← List.append_nil e.tail, h.occurrencesFrom_blanks e.tail_blank,
      occurrencesFrom_nil]
    rfl
  | @skip behind cs c os hread hscan ih =>
    rw [← ih, back_cons]
    cases hc : isBlank c with
    | true => rw [written_cons, h.occurrencesFrom_blanks (e.spell_blank hc)]
    | false =>
      have hmoved := h.readAt_written hfront behind (c :: cs)
      rw [hcons.readAt_eq_none hread, e.written_cons_solid hc] at hmoved
      rw [e.written_cons_solid hc, occurrencesFrom_of_readAt_none hmoved, e.spell_solid hc]
      rfl
  | @find behind m rest captured os hne hread hscan ih =>
    have hmoved := h.readAt_written hfront behind (m ++ rest)
    rw [hread, written_append] at hmoved
    rw [written_append, occurrencesFrom_of_readAt (e.spelt_ne_nil hne) hmoved, ← e.back_append, ih]
    rfl

/-- The occurrences are found in the same order, with their parts written in another way. -/
theorem Ignored.occurrences_written (hlawful : p.Lawful) (hcons : p.Consuming) (text : List Char) :
    p.occurrences (front ++ e.written text) = (p.occurrences text).map (e.moved front) := by
  have hback : e.back front [] = front.reverse ++ [] := by
    rw [back, List.reverse_nil, spelt_nil, List.append_nil, List.append_nil]
  rw [occurrences, h.occurrencesFrom_blanks hfront, ← hback]
  exact h.occurrencesFrom_written hfront hlawful hcons [] text

end

end Respacing

end DefectScan
