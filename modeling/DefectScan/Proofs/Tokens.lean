import DefectScan.Learning.Vectorizer
import DefectScan.Proofs.LowerCase

/-!
# The tokens of a text

The runs that are read from a text are the words of a text of words and gaps (`Spaced`),

    wordRuns cs [] = words ↔ Spaced words cs

so they are its longest runs of word characters, from left to right (`IsRun`). A token is such a run of
two or more characters. This is what a search for two or more word characters between word boundaries
finds (`Finds`, `IsMatch`): a boundary stands only at the two ends of a run, so a match is a whole run.

Tokens are in lower case, and lower case leaves them and what stands between them as it is, so joined
again they are read as the same tokens.
-/

namespace DefectScan.Learning

open Text

/-! ## Words and gaps -/

/-- Words with gaps around them: a text is a gap, which may be empty, a word, and a text of that form
that does not go on with the word. -/
inductive Spaced : List (List Char) → List Char → Prop
  | gap {gap : List Char} : (∀ c ∈ gap, isWord c = false) → Spaced [] gap
  | word {gap word rest : List Char} {words : List (List Char)} :
    (∀ c ∈ gap, isWord c = false) → word ≠ [] → (∀ c ∈ word, isWord c = true) →
    (∀ c, rest.head? = some c → isWord c = false) → Spaced words rest →
    Spaced (word :: words) (gap ++ word ++ rest)

theorem Spaced.cons {c : Char} (hc : isWord c = false) {words : List (List Char)} {cs : List Char}
    (h : Spaced words cs) : Spaced words (c :: cs) := by
  cases h with
  | gap hgap => exact .gap (List.forall_mem_cons.mpr ⟨hc, hgap⟩)
  | word hgap hne hword hrest hwords =>
    exact .word (List.forall_mem_cons.mpr ⟨hc, hgap⟩) hne hword hrest hwords

/-- A text that begins with a word. -/
theorem Spaced.start {word rest : List Char} {words : List (List Char)} (hne : word ≠ [])
    (hword : ∀ c ∈ word, isWord c = true) (hrest : ∀ c, rest.head? = some c → isWord c = false)
    (h : Spaced words rest) : Spaced (word :: words) (word ++ rest) :=
  @Spaced.word [] word rest words (List.forall_mem_nil _) hne hword hrest h

theorem wordRuns_gap_append {gap : List Char} (hgap : ∀ c ∈ gap, isWord c = false) (cs : List Char) :
    wordRuns (gap ++ cs) [] = wordRuns cs [] := by
  induction gap with
  | nil => rfl
  | cons c gap ih =>
    rw [List.forall_mem_cons] at hgap
    rw [List.cons_append, wordRuns, hgap.1, ← ih hgap.2]
    rfl

theorem wordRuns_word_append {word : List Char} (hword : ∀ c ∈ word, isWord c = true)
    (cs run : List Char) : wordRuns (word ++ cs) run = wordRuns cs (word.reverse ++ run) := by
  induction word generalizing run with
  | nil => rfl
  | cons c word ih =>
    rw [List.forall_mem_cons] at hword
    rw [List.cons_append, wordRuns, if_pos hword.1, ih hword.2, List.reverse_cons, List.append_assoc]
    rfl

/-- A run ends where no word character follows. -/
theorem wordRuns_of_head {cs : List Char} (hcs : ∀ c, cs.head? = some c → isWord c = false)
    {run : List Char} (hrun : run ≠ []) : wordRuns cs run = run.reverse :: wordRuns cs [] := by
  have hempty : run.isEmpty = false := List.isEmpty_eq_false_iff.mpr hrun
  cases cs with
  | nil =>
    rw [wordRuns, wordRuns, hempty]
    rfl
  | cons c cs =>
    rw [wordRuns, wordRuns, hcs c rfl, hempty]
    rfl

theorem Spaced.wordRuns_eq {words : List (List Char)} {cs : List Char} (h : Spaced words cs) :
    wordRuns cs [] = words := by
  induction h with
  | @gap gap hgap =>
    have h := wordRuns_gap_append hgap []
    rwa [List.append_nil] at h
  | word hgap hne hword hrest hwords ih =>
    rw [List.append_assoc, wordRuns_gap_append hgap, wordRuns_word_append hword, List.append_nil,
      wordRuns_of_head hrest (by simpa using hne), List.reverse_reverse, ih]

theorem spaced_wordRuns (cs : List Char) {run : List Char} (hrun : ∀ c ∈ run, isWord c = true) :
    Spaced (wordRuns cs run) (run.reverse ++ cs) := by
  have hreverse : ∀ c ∈ run.reverse, isWord c = true := fun c hc => hrun c (List.mem_reverse.mp hc)
  induction cs generalizing run with
  | nil =>
    rw [wordRuns]
    by_cases hne : run = []
    · subst hne
      exact .gap (by simp)
    · rw [if_neg (by simpa using hne)]
      exact .start (by simpa using hne) hreverse (by simp) (.gap (by simp))
  | cons c cs ih =>
    rw [wordRuns]
    by_cases hc : isWord c = true
    · rw [if_pos hc]
      have hlonger : ∀ d ∈ c :: run, isWord d = true := List.forall_mem_cons.mpr ⟨hc, hrun⟩
      have h := ih hlonger fun d hd => hlonger d (List.mem_reverse.mp hd)
      rwa [List.reverse_cons, List.append_assoc] at h
    · rw [if_neg hc]
      have hc : isWord c = false := Bool.not_eq_true _ ▸ hc
      have hrest : Spaced (wordRuns cs []) (c :: cs) := (ih (by simp) (by simp)).cons hc
      by_cases hne : run = []
      · subst hne
        exact hrest
      · rw [if_neg (by simpa using hne)]
        exact .start (by simpa using hne) hreverse (by simpa using hc) hrest

theorem wordRuns_eq_iff {words : List (List Char)} {cs : List Char} :
    wordRuns cs [] = words ↔ Spaced words cs :=
  ⟨fun h => h ▸ spaced_wordRuns cs (by simp), Spaced.wordRuns_eq⟩

theorem Spaced.of_mem {words : List (List Char)} {cs : List Char} (h : Spaced words cs)
    {w : List Char} (hw : w ∈ words) : (∀ c ∈ w, isWord c = true) ∧ ∀ c ∈ w, c ∈ cs := by
  induction h with
  | gap => cases hw
  | word _ _ hword _ _ ih =>
    rcases List.mem_cons.mp hw with rfl | hw
    · exact ⟨hword, fun c hc => by simp [hc]⟩
    · exact ⟨(ih hw).1, fun c hc => by simp [(ih hw).2 c hc]⟩

/-! ## Places of runs -/

def isWordAt (cs : List Char) (i : Nat) : Bool := cs[i]?.any isWord

/-- The characters from `i` up to `j` are a longest run of word characters. -/
structure IsRun (cs : List Char) (i j : Nat) : Prop where
  lt : i < j
  word : ∀ k, i ≤ k → k < j → isWordAt cs k = true
  before : ∀ k, k + 1 = i → isWordAt cs k = false
  after : isWordAt cs j = false

theorem isWordAt_append (a b : List Char) (k : Nat) : isWordAt (a ++ b) (a.length + k) = isWordAt b k := by
  rw [isWordAt, List.getElem?_append_right (Nat.le_add_right ..), Nat.add_sub_cancel_left, isWordAt]

theorem isWordAt_append_left {a : List Char} (b : List Char) {k : Nat} (hk : k < a.length) :
    isWordAt (a ++ b) k = isWordAt a k := by
  rw [isWordAt, List.getElem?_append_left hk, isWordAt]

theorem isWordAt_of_forall {cs : List Char} {b : Bool} (h : ∀ c ∈ cs, isWord c = b) {k : Nat}
    (hk : k < cs.length) : isWordAt cs k = b := by
  rw [isWordAt, List.getElem?_eq_getElem hk, Option.any_some, h _ (List.getElem_mem hk)]

theorem isWordAt_zero {cs : List Char} (h : ∀ c, cs.head? = some c → isWord c = false) :
    isWordAt cs 0 = false := by
  cases cs with
  | nil => rfl
  | cons c cs => exact h c rfl

theorem lt_length_of_isWordAt {cs : List Char} {k : Nat} (h : isWordAt cs k = true) :
    k < cs.length := by
  refine Nat.lt_of_not_le fun hle => ?_
  rw [isWordAt, List.getElem?_eq_none hle] at h
  cases h

theorem IsRun.length_extract {cs : List Char} {i j : Nat} (h : IsRun cs i j) :
    (cs.extract i j).length = j - i := by
  have hlt := h.lt
  have hlast := lt_length_of_isWordAt (h.word (j - 1) (by omega) (by omega))
  rw [List.extract_eq_take_drop, List.length_take, List.length_drop]
  omega

/-- One run begins at a place at most. -/
theorem IsRun.end_unique {cs : List Char} {i j j' : Nat} (h : IsRun cs i j) (h' : IsRun cs i j') :
    j = j' := by
  have hlt := h.lt
  have hlt' := h'.lt
  rcases Nat.lt_trichotomy j j' with hj | hj | hj
  · exact absurd (h'.word j (by omega) hj) (by simp [h.after])
  · exact hj
  · exact absurd (h.word j' (by omega) hj) (by simp [h'.after])

/-- Behind a gap from `n` on there are the run at its end and the runs behind that one. -/
theorem IsRun.behind_gap_iff {cs : List Char} {p q n : Nat} (h : IsRun cs p q) (hn : n ≤ p)
    (hgap : ∀ k, n ≤ k → k < p → isWordAt cs k = false) (i j : Nat) :
    IsRun cs i j ∧ n ≤ i ↔ i = p ∧ j = q ∨ IsRun cs i j ∧ q ≤ i := by
  have hlt := h.lt
  constructor
  · rintro ⟨hrun, hle⟩
    have hfirst := hrun.word i (Nat.le_refl i) hrun.lt
    rcases Nat.lt_trichotomy i p with hi | rfl | hi
    · rw [hgap i hle hi] at hfirst
      cases hfirst
    · exact .inl ⟨rfl, hrun.end_unique h⟩
    · refine .inr ⟨hrun, Nat.le_of_not_lt fun hiq => ?_⟩
      -- a run does not begin inside of another
      have hword := h.word (i - 1) (by omega) (by omega)
      rw [hrun.before (i - 1) (by omega)] at hword
      cases hword
  · rintro (⟨rfl, rfl⟩ | ⟨hrun, hle⟩)
    · exact ⟨h, hn⟩
    · exact ⟨hrun, by omega⟩

section
variable {a w b : List Char} (hne : w ≠ []) (hw : ∀ c ∈ w, isWord c = true)

theorem extract_between (a w b : List Char) :
    (a ++ w ++ b).extract a.length (a ++ w).length = w := by
  rw [List.extract_eq_take_drop, List.append_assoc, List.drop_left, List.length_append,
    Nat.add_sub_cancel_left, List.take_left]

include hne hw

theorem isRun_between (ha : ∀ k, k + 1 = a.length → isWordAt a k = false)
    (hb : isWordAt b 0 = false) : IsRun (a ++ w ++ b) a.length (a ++ w).length where
  lt := by
    have := List.length_pos_iff.mpr hne
    rw [List.length_append]
    omega
  word k hle hlt := by
    obtain ⟨m, rfl⟩ := Nat.exists_eq_add_of_le hle
    rw [List.length_append] at hlt
    rw [List.append_assoc, isWordAt_append, isWordAt_append_left b (by omega),
      isWordAt_of_forall hw (by omega)]
  before k hk := by
    rw [List.append_assoc, isWordAt_append_left _ (by omega), ha k hk]
  after := by
    have h := isWordAt_append (a ++ w) b 0
    rwa [Nat.add_zero, hb] at h

end

/-- The words of a text that follows `done` are its runs from there on, if none runs over that place. -/
theorem Spaced.spans {words : List (List Char)} {cs : List Char} (h : Spaced words cs)
    (done : List Char) (hdone : ∀ k, k + 1 = done.length → isWordAt done k = true → isWordAt cs 0 = false) :
    ∃ spans : List (Nat × Nat), words = spans.map (fun span => (done ++ cs).extract span.1 span.2) ∧
      spans.Pairwise (fun a b => a.2 < b.1) ∧
      ∀ i j, (i, j) ∈ spans ↔ IsRun (done ++ cs) i j ∧ done.length ≤ i := by
  induction h generalizing done with
  | @gap gap hgap =>
    refine ⟨[], rfl, .nil, fun i j => ?_⟩
    simp only [List.not_mem_nil, false_iff, not_and]
    intro hrun hle
    have hword := hrun.word i (Nat.le_refl i) hrun.lt
    have hlt := lt_length_of_isWordAt hword
    rw [List.length_append] at hlt
    obtain ⟨k, rfl⟩ := Nat.exists_eq_add_of_le hle
    rw [isWordAt_append, isWordAt_of_forall hgap (by omega)] at hword
    cases hword
  | @word gap word rest words hgap hne hword hrest hwords ih =>
    have hstop : isWordAt rest 0 = false := isWordAt_zero hrest
    have htext : done ++ (gap ++ word ++ rest) = done ++ gap ++ word ++ rest := by
      simp only [List.append_assoc]
    have hbefore : ∀ k, k + 1 = (done ++ gap).length → isWordAt (done ++ gap) k = false := by
      intro k hk
      cases gap with
      | nil =>
        -- the word begins at the place itself
        rw [List.append_nil] at hk ⊢
        refine Bool.eq_false_iff.mpr fun hlast => ?_
        have hfirst := hdone k hk hlast
        rw [List.nil_append, isWordAt_append_left rest (List.length_pos_iff.mpr hne),
          isWordAt_of_forall hword (List.length_pos_iff.mpr hne)] at hfirst
        cases hfirst
      | cons c gap =>
        rw [List.length_append, List.length_cons] at hk
        rw [show k = done.length + gap.length by omega, isWordAt_append,
          isWordAt_of_forall hgap (by simp)]
    have hgapAt : ∀ k, done.length ≤ k → k < (done ++ gap).length →
        isWordAt (done ++ gap ++ word ++ rest) k = false := by
      intro k hle hlt
      obtain ⟨m, rfl⟩ := Nat.exists_eq_add_of_le hle
      rw [List.length_append] at hlt
      rw [← htext, isWordAt_append, List.append_assoc, isWordAt_append_left _ (by omega),
        isWordAt_of_forall hgap (by omega)]
    have hrun := isRun_between hne hword hbefore hstop
    obtain ⟨spans, hspans, hsorted, hmem⟩ := ih (done ++ gap ++ word) fun _ _ _ => hstop
    rw [htext]
    refine ⟨((done ++ gap).length, (done ++ gap ++ word).length) :: spans, ?_, ?_, ?_⟩
    · rw [List.map_cons, extract_between, ← hspans]
    · refine List.pairwise_cons.mpr ⟨fun span hspan => ?_, hsorted⟩
      obtain ⟨hother, hle⟩ := (hmem span.1 span.2).mp hspan
      refine Nat.lt_of_le_of_ne hle fun heq => ?_
      have hword := hother.word span.1 (Nat.le_refl _) hother.lt
      rw [← heq, hrun.after] at hword
      cases hword
    · intro i j
      rw [List.mem_cons, hmem, hrun.behind_gap_iff (by simp) hgapAt, Prod.mk.injEq]

/-! ## The search for tokens -/

/-- A word character stands on one side of the place and none on the other. -/
def IsBoundary (cs : List Char) (i : Nat) : Prop :=
  (decide (0 < i) && isWordAt cs (i - 1)) ≠ isWordAt cs i

/-- Two or more word characters between boundaries. -/
structure IsMatch (cs : List Char) (i j : Nat) : Prop where
  starts : IsBoundary cs i
  two_le : i + 2 ≤ j
  word : ∀ k, i ≤ k → k < j → isWordAt cs k = true
  ends : IsBoundary cs j

/-- A boundary stands at the two ends of a run and nowhere inside it. -/
theorem isMatch_iff {cs : List Char} {i j : Nat} : IsMatch cs i j ↔ IsRun cs i j ∧ i + 2 ≤ j := by
  constructor
  · rintro ⟨hstarts, htwo, hword, hends⟩
    refine ⟨⟨by omega, hword, ?_, ?_⟩, htwo⟩
    · rintro k rfl
      rw [IsBoundary, hword (k + 1) (Nat.le_refl _) (by omega)] at hstarts
      simpa using hstarts
    · rw [IsBoundary, hword (j - 1) (by omega) (by omega)] at hends
      simpa [show 0 < j by omega] using hends
  · rintro ⟨hrun, htwo⟩
    refine ⟨?_, htwo, hrun.word, ?_⟩
    · rw [IsBoundary, hrun.word i (Nat.le_refl i) hrun.lt]
      cases i with
      | zero => simp
      | succ k => simp [hrun.before k rfl]
    · rw [IsBoundary, hrun.after, hrun.word (j - 1) (by omega) (by omega)]
      simp [show 0 < j by omega]

/-- What a search finds from a place on: at the first place where there is a match the longest one
there, and then what it finds from the end of that one on. -/
inductive Finds (isMatch : Nat → Nat → Prop) : Nat → List (Nat × Nat) → Prop
  | none {start : Nat} : (∀ i j, start ≤ i → ¬ isMatch i j) → Finds isMatch start []
  | next {start i j : Nat} {found : List (Nat × Nat)} : start ≤ i → isMatch i j →
    (∀ i' j', start ≤ i' → i' < i → ¬ isMatch i' j') → (∀ j', isMatch i j' → j' ≤ j) →
    Finds isMatch j found → Finds isMatch start ((i, j) :: found)

theorem finds_of_sorted {cs : List Char} {spans : List (Nat × Nat)}
    (hsorted : spans.Pairwise fun a b => a.2 < b.1) {start : Nat}
    (hmem : ∀ i j, (i, j) ∈ spans ↔ IsMatch cs i j ∧ start ≤ i) : Finds (IsMatch cs) start spans := by
  induction spans generalizing start with
  | nil => exact .none fun i j hle hmatch => List.not_mem_nil ((hmem i j).mpr ⟨hmatch, hle⟩)
  | cons span spans ih =>
    obtain ⟨i, j⟩ := span
    obtain ⟨hfirst, hsorted⟩ := List.pairwise_cons.mp hsorted
    obtain ⟨hmatch, hle⟩ := (hmem i j).mp List.mem_cons_self
    have htwo := hmatch.two_le
    refine .next hle hmatch ?_ ?_ (ih hsorted fun i' j' => ?_)
    -- the spans are all matches there are, and in order: none begins before the first
    · intro i' j' hle' hlt hmatch'
      rcases List.mem_cons.mp ((hmem i' j').mpr ⟨hmatch', hle'⟩) with heq | hlater
      · cases heq
        omega
      · have := hfirst _ hlater
        dsimp only at this
        omega
    · intro j' hmatch'
      exact Nat.le_of_eq ((isMatch_iff.mp hmatch').1.end_unique (isMatch_iff.mp hmatch).1)
    · constructor
      · intro hlater
        have hlt := hfirst _ hlater
        exact ⟨((hmem i' j').mp (List.mem_cons_of_mem _ hlater)).1, Nat.le_of_lt hlt⟩
      · rintro ⟨hmatch', hle'⟩
        rcases List.mem_cons.mp ((hmem i' j').mpr ⟨hmatch', by omega⟩) with heq | hlater
        · cases heq
          omega
        · exact hlater

/-! ## Tokens joined again -/

/-- Words with something between every two of them that holds no word character. -/
inductive Joined : List String → String → Prop
  | nil : Joined [] ""
  | single (word : String) : Joined [word] word
  | cons (word : String) {gap text next : String} {words : List String} : gap ≠ "" →
    (∀ c ∈ gap.toList, isWord c = false) → Joined (next :: words) text →
    Joined (word :: next :: words) (word ++ gap ++ text)

theorem head?_of_gap {gap rest : List Char} (hne : gap ≠ []) (hgap : ∀ c ∈ gap, isWord c = false)
    (c : Char) (hc : (gap ++ rest).head? = some c) : isWord c = false := by
  obtain ⟨d, gap, rfl⟩ := List.exists_cons_of_ne_nil hne
  cases hc
  exact hgap c List.mem_cons_self

theorem Joined.spaced {words : List String} {text : String} (h : Joined words text)
    (hwords : ∀ w ∈ words, w.toList ≠ [] ∧ ∀ c ∈ w.toList, isWord c = true) {before after : List Char}
    (hbefore : ∀ c ∈ before, isWord c = false) (hafter : ∀ c ∈ after, isWord c = false) :
    Spaced (words.map String.toList) (before ++ text.toList ++ after) := by
  have hend : ∀ c, after.head? = some c → isWord c = false :=
    fun c hc => hafter c (List.mem_of_head? hc)
  induction h generalizing before with
  | nil =>
    refine .gap fun c hc => ?_
    rcases List.mem_append.mp hc with hc | hc
    · exact hbefore c (by simpa using hc)
    · exact hafter c hc
  | single word =>
    obtain ⟨hne, hword⟩ := hwords word List.mem_cons_self
    exact .word hbefore hne hword hend (.gap hafter)
  | @cons word gap text next words hne hgap _ ih =>
    obtain ⟨hfirst, hword⟩ := hwords word List.mem_cons_self
    have hgapne : gap.toList ≠ [] := by simpa using hne
    have hrest := ih (fun w hw => hwords w (List.mem_cons_of_mem word hw)) hgap
    rw [List.append_assoc] at hrest
    have h := Spaced.word hbefore hfirst hword (head?_of_gap hgapne hgap) hrest
    simpa [List.append_assoc] using h

theorem Joined.mem_or {words : List String} {text : String} (h : Joined words text) {c : Char}
    (hc : c ∈ text.toList) : isWord c = false ∨ ∃ w ∈ words, c ∈ w.toList := by
  induction h with
  | nil => cases hc
  | single word => exact .inr ⟨word, List.mem_cons_self, hc⟩
  | @cons word gap text next words hne hgap _ ih =>
    simp only [String.toList_append, List.mem_append] at hc
    rcases hc with (hc | hc) | hc
    · exact .inr ⟨word, List.mem_cons_self, hc⟩
    · exact .inl (hgap c hc)
    · rcases ih hc with hc | ⟨w, hw, hc⟩
      · exact .inl hc
      · exact .inr ⟨w, List.mem_cons_of_mem word hw, hc⟩

/-- A token has two word characters or more, and lower case leaves them as they are. -/
theorem of_mem_tokenize {text token : String} (h : token ∈ tokenize text) :
    2 ≤ token.toList.length ∧ ∀ c ∈ token.toList, isWord c = true ∧ Settled c := by
  obtain ⟨run, hrun, rfl⟩ := List.mem_map.mp h
  obtain ⟨hrun, htwo⟩ := List.mem_filter.mp hrun
  obtain ⟨hword, hmem⟩ := (wordRuns_eq_iff.mp rfl).of_mem hrun
  rw [String.toList_ofList]
  exact ⟨of_decide_eq_true htwo, fun c hc => ⟨hword c hc, settled_of_mem_lowerFrom (hmem c hc)⟩⟩

theorem tokenize_of_joined {words : List String} {joined : String} (h : Joined words joined)
    (hwords : ∀ w ∈ words, 2 ≤ w.toList.length ∧ ∀ c ∈ w.toList, isWord c = true ∧ Settled c)
    {before after : String} (hbefore : ∀ c ∈ before.toList, isWord c = false)
    (hafter : ∀ c ∈ after.toList, isWord c = false) :
    tokenize (before ++ joined ++ after) = words := by
  have hlower : lowercase (before ++ joined ++ after).toList = (before ++ joined ++ after).toList := by
    refine lowercase_of_settled fun c hc => ?_
    simp only [String.toList_append, List.mem_append] at hc
    rcases hc with (hc | hc) | hc
    · exact settled_of_not_isWord (hbefore c hc)
    · rcases h.mem_or hc with hc | ⟨w, hw, hc⟩
      · exact settled_of_not_isWord hc
      · exact ((hwords w hw).2 c hc).2
    · exact settled_of_not_isWord (hafter c hc)
  have hspaced := h.spaced (fun w hw => ⟨List.ne_nil_of_length_pos (by have := (hwords w hw).1; omega),
    fun c hc => ((hwords w hw).2 c hc).1⟩) hbefore hafter
  rw [tokenize, hlower, String.toList_append, String.toList_append, hspaced.wordRuns_eq,
    List.filter_eq_self.mpr, List.map_map]
  · simp
  · intro run hrun
    obtain ⟨w, hw, rfl⟩ := List.mem_map.mp hrun
    exact decide_eq_true (hwords w hw).1

/-! ## Main result -/

/-- The tokens of a text are, from left to right, its longest runs of word characters in lower case
that have two characters or more, which is what a search for two or more word characters between
boundaries finds. Joined again, with anything between them and around them that holds no word character,
they are the tokens of that text. -/
theorem tokenize_longest_runs (text : String) :
    (∃ spans : List (Nat × Nat),
      tokenize text
        = spans.map (fun span => String.ofList ((lowercase text.toList).extract span.1 span.2)) ∧
      spans.Pairwise (fun a b => a.2 < b.1) ∧
      (∀ i j, (i, j) ∈ spans ↔ IsRun (lowercase text.toList) i j ∧ i + 2 ≤ j) ∧
      Finds (IsMatch (lowercase text.toList)) 0 spans) ∧
    ∀ joined before after : String, Joined (tokenize text) joined →
      (∀ c ∈ before.toList, isWord c = false) → (∀ c ∈ after.toList, isWord c = false) →
      tokenize (before ++ joined ++ after) = tokenize text := by
  constructor
  · have hspaced : Spaced _ (lowercase text.toList) := wordRuns_eq_iff.mp rfl
    obtain ⟨spans, hwords, hsorted, hmem⟩ := hspaced.spans [] (by simp)
    simp only [List.nil_append, List.length_nil, Nat.zero_le, and_true] at hwords hmem
    have hlong : ∀ i j, (i, j) ∈ spans.filter (fun span => span.1 + 2 ≤ span.2) ↔
        IsRun (lowercase text.toList) i j ∧ i + 2 ≤ j := by
      intro i j
      rw [List.mem_filter, hmem, decide_eq_true_eq]
    refine ⟨_, ?_, hsorted.filter _, hlong, finds_of_sorted (hsorted.filter _) ?_⟩
    · rw [tokenize, hwords, List.filter_map, List.map_map]
      refine congrArg _ (List.filter_congr fun span hspan => ?_)
      have hlength := ((hmem span.1 span.2).mp hspan).length_extract
      have hlt := ((hmem span.1 span.2).mp hspan).lt
      rw [Function.comp_apply, hlength, decide_eq_decide]
      omega
    · intro i j
      rw [hlong, isMatch_iff, and_iff_left (Nat.zero_le i)]
  · intro joined before after hjoined hbefore hafter
    exact tokenize_of_joined hjoined (fun w hw => of_mem_tokenize hw) hbefore hafter

/-- A sigma that is final in its token, and a letter that becomes two. -/
theorem tokenize_longest_runs_sigma :
    tokenize "ΑΣ a İΣ" = ["ας", "i̇ς"] ∧ Joined (tokenize "ΑΣ a İΣ") ("ας" ++ "-" ++ "i̇ς") ∧
      tokenize ("-" ++ ("ας" ++ "-" ++ "i̇ς") ++ "") = ["ας", "i̇ς"] := by
  have htokens : tokenize "ΑΣ a İΣ" = ["ας", "i̇ς"] := by decide +kernel
  have hdash : ∀ c ∈ "-".toList, isWord c = false := by
    rintro c hc
    rw [List.mem_singleton.mp hc]
    decide
  have hjoined : Joined (tokenize "ΑΣ a İΣ") ("ας" ++ "-" ++ "i̇ς") := by
    rw [htokens]
    exact .cons "ας" (by decide) hdash (.single "i̇ς")
  have h := (tokenize_longest_runs "ΑΣ a İΣ").2 _ "-" "" hjoined hdash (by simp)
  exact ⟨htokens, hjoined, h.trans htokens⟩

end DefectScan.Learning
