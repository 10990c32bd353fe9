import DefectScan.Proofs.Occurrences

/-!
# The first occurrence of a pattern

A pattern is read at the places of a text from left to right, and its first occurrence is the
leftmost place where it can be read (`Leftmost`). There is none exactly if it can be read nowhere:

    p.first? text = none ↔ ∀ pre post, text = pre ++ post → p.readAt pre.reverse post = none

The parts of patterns are described by the texts that they read: a word, blanks and a mark, or a run
of characters up to one that ends it.
-/

namespace DefectScan.Pattern

open Text

/-! ## Reading at a place -/

/-- What a pattern leaves is shorter than what it was given. -/
def Consuming (p : Pattern) : Prop :=
  ∀ text hit, p.read text = some hit → hit.rest.length < text.length

/-- No character of a word stands directly before. -/
def WordStart (pre : List Char) : Prop := ∀ c, pre.getLast? = some c → isWord c = false

theorem readAt_eq_some_iff {p : Pattern} (hp : p.startsWord = true) {pre text : List Char}
    {hit : Hit} :
    p.readAt pre.reverse text = some hit ↔ WordStart pre ∧ p.read text = some hit := by
  unfold readAt WordStart
  rw [List.head?_reverse, hp, Bool.true_and]
  cases pre.getLast? with
  | none => simp
  | some c => cases hc : isWord c <;> simp [hc]

theorem read_of_readAt {p : Pattern} {behind text : List Char} {hit : Hit}
    (h : p.readAt behind text = some hit) : p.read text = some hit := by
  unfold readAt at h
  split at h
  · cases h
  · exact h

theorem Consuming.readAt_eq_none {p : Pattern} (hp : p.Consuming) {behind text : List Char}
    (h : ∀ hit, p.readAt behind text = some hit → ¬ hit.rest.length < text.length) :
    p.readAt behind text = none := by
  cases hread : p.readAt behind text with
  | none => rfl
  | some hit => exact absurd (hp text hit (read_of_readAt hread)) (h hit hread)

/-! ## The leftmost place -/

/-- An occurrence at the leftmost place of a text where the pattern can be read. -/
structure Leftmost (p : Pattern) (text : List Char) (o : Occurrence) : Prop where
  parts : text = o.behind.reverse ++ (o.matched ++ o.after)
  read : p.readAt o.behind (o.matched ++ o.after) = some ⟨o.captured, o.after⟩
  none_before : ∀ pre post, text = pre ++ post → pre.length < o.behind.length →
    p.readAt pre.reverse post = none

/-- The same for a text with something behind it. -/
theorem head?_occurrencesFrom {p : Pattern} (hp : p.Lawful) (hc : p.Consuming)
    {behind text : List Char} {o : Occurrence} (h : (p.occurrencesFrom behind text).head? = some o) :
    ∃ skipped, o.behind = skipped.reverse ++ behind ∧ text = skipped ++ (o.matched ++ o.after) ∧
      p.readAt o.behind (o.matched ++ o.after) = some ⟨o.captured, o.after⟩ ∧
      ∀ pre post, text = pre ++ post → pre.length < skipped.length →
        p.readAt (pre.reverse ++ behind) post = none := by
  have hscan := scan_occurrencesFrom hp behind text
  generalize p.occurrencesFrom behind text = os at h hscan
  induction hscan with
  | done => cases h
  | @skip behind cs c os hread hscan ih =>
    obtain ⟨skipped, hbehind, htext, hat, hbefore⟩ := ih h
    -- nothing is read here, and the places before the hit are this one and those of the rest
    refine ⟨c :: skipped, by simp [hbehind], by rw [htext]; rfl, hat, ?_⟩
    intro pre post hsplit hlt
    cases pre with
    | nil =>
      cases hsplit
      exact hc.readAt_eq_none hread
    | cons d pre =>
      obtain ⟨rfl, hcs⟩ := List.cons.inj hsplit
      simpa using hbefore pre post hcs (Nat.lt_of_succ_lt_succ hlt)
  | find hne hread hscan ih =>
    cases h
    exact ⟨[], rfl, rfl, hread, by simp⟩

theorem occurrencesFrom_eq_nil_iff {p : Pattern} (hp : p.Lawful) (hc : p.Consuming)
    {behind text : List Char} :
    p.occurrencesFrom behind text = [] ↔
      ∀ pre post, text = pre ++ post → p.readAt (pre.reverse ++ behind) post = none := by
  have hscan := scan_occurrencesFrom hp behind text
  generalize p.occurrencesFrom behind text = os at hscan
  induction hscan with
  | done =>
    refine iff_of_true rfl ?_
    intro pre post hsplit
    obtain ⟨rfl, rfl⟩ := List.append_eq_nil_iff.mp hsplit.symm
    exact hc.readAt_eq_none fun hit _ => Nat.not_lt_zero _
  | @skip behind cs c os hread hscan ih =>
    refine ih.trans ⟨?_, ?_⟩
    · intro h pre post hsplit
      cases pre with
      | nil =>
        cases hsplit
        exact hc.readAt_eq_none hread
      | cons d pre =>
        obtain ⟨rfl, hcs⟩ := List.cons.inj hsplit
        simpa using h pre post hcs
    · intro h pre post hsplit
      simpa using h (c :: pre) post (by rw [hsplit]; rfl)
  | find hne hread hscan ih =>
    refine iff_of_false (List.cons_ne_nil _ _) ?_
    intro h
    have hnone := h [] _ (List.nil_append _).symm
    rw [List.reverse_nil, List.nil_append, hread] at hnone
    cases hnone

theorem leftmost_of_first? {p : Pattern} (hp : p.Lawful) (hc : p.Consuming) {text : List Char}
    {o : Occurrence} (h : p.first? text = some o) : p.Leftmost text o := by
  obtain ⟨skipped, hbehind, htext, hat, hbefore⟩ := head?_occurrencesFrom hp hc h
  rw [List.append_nil] at hbehind
  refine ⟨by rw [hbehind, List.reverse_reverse, htext], hat, ?_⟩
  intro pre post hsplit hlt
  rw [hbehind, List.length_reverse] at hlt
  simpa using hbefore pre post hsplit hlt

theorem first?_eq_none_iff {p : Pattern} (hp : p.Lawful) (hc : p.Consuming) {text : List Char} :
    p.first? text = none ↔ ∀ pre post, text = pre ++ post → p.readAt pre.reverse post = none := by
  have hnil := @occurrencesFrom_eq_nil_iff p hp hc [] text
  simp only [List.append_nil] at hnil
  rw [← hnil, first?, List.head?_eq_none_iff]
  rfl

/-! ## Parts of patterns -/

/-- Blank characters only. -/
def AllBlank (w : List Char) : Prop := ∀ c ∈ w, isBlank c = true

theorem literal_eq_some_iff {w text rest : List Char} :
    literal w text = some rest ↔ text = w ++ rest := by
  induction w generalizing text with
  | nil => simp [literal]
  | cons c w ih =>
    cases text with
    | nil => simp [literal]
    | cons d text =>
      rw [literal]
      split
      · next hdc => simp [ih, hdc]
      · next hdc => simp [hdc]

theorem word_eq_some_iff {w : String} {text rest : List Char} :
    word w text = some rest ↔ text = w.toList ++ rest :=
  literal_eq_some_iff

/-- A run of characters is read up to the first that ends it. -/
theorem span_eq {p : Char → Bool} {run : List Char} {c : Char} (hrun : ∀ d ∈ run, p d = true)
    (hc : p c = false) (rest : List Char) :
    (run ++ c :: rest).takeWhile p = run ∧ (run ++ c :: rest).dropWhile p = c :: rest := by
  rw [List.takeWhile_append_of_pos hrun, List.dropWhile_append_of_pos hrun]
  simp [hc]

theorem exists_span {p : Char → Bool} (text : List Char) :
    ∃ run rest, text = run ++ rest ∧ text.takeWhile p = run ∧ text.dropWhile p = rest ∧
      ∀ d ∈ run, p d = true :=
  ⟨_, _, List.takeWhile_append_dropWhile.symm, rfl, rfl,
    fun d hd => List.all_eq_true.mp List.all_takeWhile d hd⟩

/-- A mark that does not begin with a blank is read behind any blanks. -/
theorem mark_eq_some_iff {m : String} {c : Char} {cs : List Char} (hm : m.toList = c :: cs)
    (hc : isBlank c = false) {text rest : List Char} :
    mark m text = some rest ↔ ∃ w, AllBlank w ∧ text = w ++ (m.toList ++ rest) := by
  unfold mark blanks
  rw [word_eq_some_iff]
  constructor
  · intro h
    obtain ⟨w, tail, htext, -, hdrop, hblank⟩ := exists_span (p := isBlank) text
    rw [hdrop] at h
    exact ⟨w, hblank, by rw [htext, h]⟩
  · rintro ⟨w, hblank, rfl⟩
    rw [hm]
    exact (span_eq hblank hc _).2

end DefectScan.Pattern
