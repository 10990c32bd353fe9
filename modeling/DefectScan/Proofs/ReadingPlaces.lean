import DefectScan.Proofs.FirstOccurrence

/-!
# Every place where a pattern can be read

Most patterns read the texts of a set, at the start of a word (`Spells`). If none of these texts can
begin inside of another, no place where the pattern can be read is lost to an occurrence before it
(`SelfAvoiding`), and the lines of the occurrences are those of all such places:

    ((p.occurrences text).filter keep).map line = linesWhere (p.reports keep) [] text

What is read at a place depends on what follows it and on one character before it. So the lines of
joined texts are put together from those of the parts, as long as nothing that is read runs over a
joint (`Uncrossed`). The same holds of what follows the occurrences (`afters`).

Where texts of the set can begin inside of another, a place where the pattern can be read is lost only
to an occurrence that runs over it (`Overruns`).
-/

namespace DefectScan

open Text

/-! ## Words and blanks -/

namespace Text

/-- The code points of the blank characters. -/
def blankPoints : List Nat :=
  [9, 10, 11, 12, 13, 32, 133, 160, 5760, 8192, 8193, 8194, 8195, 8196, 8197, 8198, 8199, 8200, 8201,
    8202, 8232, 8233, 8239, 8287, 12288]

theorem mem_blankPoints {n : Nat} (h : inRanges n blankRanges = true) : n ∈ blankPoints := by
  simp only [inRanges, blankRanges, Bool.if_false_left, Bool.and_eq_true, Bool.or_eq_true,
    decide_eq_true_eq, Bool.not_eq_true', decide_eq_false_iff_not, Bool.or_false] at h
  simp only [blankPoints, List.mem_cons, List.not_mem_nil, or_false]
  omega

theorem isWord_of_isBlank {c : Char} (h : isBlank c = true) : isWord c = false := by
  have hpoints : ∀ n ∈ blankPoints, inRanges n wordRanges = false := by decide +kernel
  exact hpoints c.toNat (mem_blankPoints h)

theorem isBlank_of_isWord {c : Char} (h : isWord c = true) : isBlank c = false := by
  cases hc : isBlank c with
  | false => rfl
  | true => rw [isWord_of_isBlank hc] at h; cases h

end Text

namespace Pattern

/-- Word characters only. -/
def AllWord (w : List Char) : Prop := ∀ c ∈ w, isWord c = true

/-- A text is cut where a run of characters ends. -/
theorem span_eq_iff {p : Char → Bool} {text run rest : List Char} :
    text.takeWhile p = run ∧ text.dropWhile p = rest ↔
      text = run ++ rest ∧ (∀ c ∈ run, p c = true) ∧ ∀ c, rest.head? = some c → p c = false := by
  constructor
  · rintro ⟨rfl, rfl⟩
    refine ⟨List.takeWhile_append_dropWhile.symm, fun c hc => ?_, fun c hc => ?_⟩
    · exact List.all_eq_true.mp List.all_takeWhile c hc
    · have hnot := List.head?_dropWhile_not p text
      rwa [hc] at hnot
  · rintro ⟨rfl, hrun, hrest⟩
    rw [List.takeWhile_append_of_pos hrun, List.dropWhile_append_of_pos hrun]
    cases rest with
    | nil => exact ⟨List.append_nil run, rfl⟩
    | cons c rest => simp [hrest c rfl]

/-- A run of characters ends at one place only. -/
theorem span_unique {p : Char → Bool} {run rest run' rest' : List Char}
    (heq : run ++ rest = run' ++ rest') (hrun : ∀ c ∈ run, p c = true)
    (hrest : ∀ c, rest.head? = some c → p c = false) (hrun' : ∀ c ∈ run', p c = true)
    (hrest' : ∀ c, rest'.head? = some c → p c = false) : run = run' ∧ rest = rest' := by
  obtain ⟨htake, hdrop⟩ := span_eq_iff.mpr ⟨rfl, hrun, hrest⟩
  obtain ⟨htake', hdrop'⟩ := span_eq_iff.mpr ⟨heq, hrun', hrest'⟩
  exact ⟨htake.symm.trans htake', hdrop.symm.trans hdrop'⟩

/-- The first of some character cuts a text at one place. -/
theorem eq_of_append_cons {x : Char} {a b a' b' : List Char} (ha : x ∉ a) (ha' : x ∉ a')
    (heq : a ++ x :: b = a' ++ x :: b') : a = a' ∧ b = b' := by
  have hrun : ∀ {l : List Char}, x ∉ l → ∀ c ∈ l, decide (c ≠ x) = true := by
    intro l hl c hc
    exact decide_eq_true fun h => hl (h ▸ hc)
  have hrest : ∀ {l : List Char} (c : Char), (x :: l).head? = some c → decide (c ≠ x) = false := by
    rintro l _ ⟨⟩
    simp
  obtain ⟨hfront, hback⟩ := span_unique heq (hrun ha) hrest (hrun ha') hrest
  exact ⟨hfront, (List.cons.inj hback).2⟩

/-- What ends with a character ends with it behind any cut before its end. -/
theorem exists_of_concat_eq {a front z : List Char} {c : Char} (h : a ++ [c] = front ++ z)
    (hz : z ≠ []) : ∃ u, z = u ++ [c] ∧ a = front ++ u := by
  have hz' := (List.dropLast_concat_getLast hz).symm
  rw [hz', ← List.append_assoc] at h
  obtain ⟨ha, hc⟩ := List.append_inj' h rfl
  refine ⟨z.dropLast, ?_, ha⟩
  rw [(List.cons.inj hc).1]
  exact hz'

/-- What begins with characters of one kind does not begin with one of another. -/
theorem not_of_head?_append {p q : Char → Bool} (hpq : ∀ {c}, p c = true → q c = false)
    {run : List Char} (hne : run ≠ []) (hrun : ∀ c ∈ run, p c = true) (rest : List Char) :
    ∀ c, (run ++ rest).head? = some c → q c = false := by
  obtain ⟨d, run, rfl⟩ := List.exists_cons_of_ne_nil hne
  rintro _ ⟨⟩
  exact hpq (hrun _ List.mem_cons_self)

theorem someWord_eq_some_iff {text w rest : List Char} :
    someWord text = some (w, rest) ↔ w ≠ [] ∧ text = w ++ rest ∧ AllWord w ∧
      ∀ c, rest.head? = some c → isWord c = false := by
  rw [AllWord, ← span_eq_iff]
  unfold someWord
  split
  · next hnil =>
    rw [hnil]
    constructor
    · intro h
      cases h
    · rintro ⟨hne, h, -⟩
      exact absurd h.symm hne
  · next hne =>
    rw [Option.some_inj, Prod.mk.injEq]
    constructor
    · rintro ⟨rfl, rfl⟩
      exact ⟨hne, rfl, rfl⟩
    · exact fun h => h.2

theorem someBlanks_eq_some_iff {text rest : List Char} :
    someBlanks text = some rest ↔ ∃ w, w ≠ [] ∧ text = w ++ rest ∧ AllBlank w ∧
      ∀ c, rest.head? = some c → isBlank c = false := by
  cases text with
  | nil =>
    constructor
    · intro h
      cases h
    · rintro ⟨w, hne, htext, -⟩
      exact absurd (List.append_eq_nil_iff.mp htext.symm).1 hne
  | cons c cs =>
    rw [someBlanks, blanks]
    constructor
    · intro h
      split at h
      · next hc =>
        cases h
        obtain ⟨hcs, hrun, hrest⟩ := (@span_eq_iff isBlank cs _ _).mp ⟨rfl, rfl⟩
        refine ⟨c :: cs.takeWhile isBlank, by simp, by rw [List.cons_append, ← hcs], ?_, hrest⟩
        exact List.forall_mem_cons.mpr ⟨hc, hrun⟩
      · cases h
    · rintro ⟨w, hne, htext, hblank, hrest⟩
      cases w with
      | nil => exact absurd rfl hne
      | cons d w =>
        obtain ⟨rfl, hcs⟩ := List.cons.inj htext
        obtain ⟨hd, hw⟩ := List.forall_mem_cons.mp hblank
        rw [if_pos hd, (span_eq_iff.mpr ⟨hcs, hw, hrest⟩).2]

/-! ## Patterns that read the texts of a set -/

/-- Whether a word character stands directly behind. -/
def wordBehind (behind : List Char) : Bool := (behind.head?.map isWord).getD false

@[simp] theorem wordBehind_nil : wordBehind [] = false := rfl

@[simp] theorem wordBehind_cons (c : Char) (behind : List Char) :
    wordBehind (c :: behind) = isWord c := rfl

theorem wordBehind_append {a : List Char} (ha : a ≠ []) (behind : List Char) :
    wordBehind (a ++ behind) = wordBehind a := by
  obtain ⟨c, cs, rfl⟩ := List.exists_cons_of_ne_nil ha
  rfl

theorem wordBehind_append_congr {behind behind' : List Char}
    (h : wordBehind behind = wordBehind behind') (a : List Char) :
    wordBehind (a ++ behind) = wordBehind (a ++ behind') := by
  cases a with
  | nil => exact h
  | cons c a => rfl

theorem wordStart_iff {pre : List Char} : WordStart pre ↔ wordBehind pre.reverse = false := by
  unfold WordStart wordBehind
  rw [List.head?_reverse]
  cases pre.getLast? <;> simp

/-- A pattern that reads the texts of a set at the start of a word. Each text comes with what is
taken note of in it. -/
structure Spells (p : Pattern) (Spelt : List Char → List (List Char) → Prop) : Prop where
  startsWord : p.startsWord = true
  ne_nil : ∀ {m : List Char} {captured : List (List Char)}, Spelt m captured → m ≠ []
  read_iff : ∀ text hit, p.read text = some hit ↔
    ∃ m, Spelt m hit.captured ∧ text = m ++ hit.rest

section
variable {p : Pattern} {Spelt : List Char → List (List Char) → Prop}

theorem Spells.lawful (h : p.Spells Spelt) : p.Lawful := by
  intro text hit hread
  obtain ⟨m, -, rfl⟩ := (h.read_iff text hit).mp hread
  exact List.suffix_append m hit.rest

theorem Spells.consuming (h : p.Spells Spelt) : p.Consuming := by
  intro text hit hread
  obtain ⟨m, hm, rfl⟩ := (h.read_iff text hit).mp hread
  have := List.length_pos_iff.mpr (h.ne_nil hm)
  rw [List.length_append]
  omega

theorem Spells.readAt_iff (h : p.Spells Spelt) {behind text : List Char} {hit : Hit} :
    p.readAt behind text = some hit ↔ wordBehind behind = false ∧
      ∃ m, Spelt m hit.captured ∧ text = m ++ hit.rest := by
  rw [← h.read_iff, readAt, h.startsWord, Bool.true_and]
  show (if wordBehind behind then none else p.read text) = some hit ↔ _
  cases wordBehind behind <;> simp

end

/-! ## Lines of places -/

/-- The lines of the places of a text at which something holds of what stands behind and of what
follows. -/
def linesWhere (holds : List Char → List Char → Bool) : List Char → List Char → List Nat
  | _, [] => []
  | behind, c :: cs =>
    if holds behind (c :: cs) then (behind.count '\n' + 1) :: linesWhere holds (c :: behind) cs
    else linesWhere holds (c :: behind) cs

theorem linesWhere_append (holds : List Char → List Char → Bool) (behind a b : List Char) :
    linesWhere holds behind (a ++ b)
      = linesWhere (fun behind text => holds behind (text ++ b)) behind a
        ++ linesWhere holds (a.reverse ++ behind) b := by
  induction a generalizing behind with
  | nil => rfl
  | cons c a ih =>
    rw [List.cons_append, linesWhere, linesWhere, ih]
    split <;> simp_all

/-- Where one thing holds only at places where another does, its lines are among those of the other,
if the texts behind have the same number of lines. -/
theorem linesWhere_sublist {holds holds' : List Char → List Char → Bool}
    {behind behind' : List Char} (text : List Char)
    (hcount : behind.count '\n' = behind'.count '\n')
    (h : ∀ a b, text = a ++ b → b ≠ [] → holds (a.reverse ++ behind) b = true →
      holds' (a.reverse ++ behind') b = true) :
    (linesWhere holds behind text).Sublist (linesWhere holds' behind' text) := by
  induction text generalizing behind behind' with
  | nil => exact .slnil
  | cons c cs ih =>
    have hrest : (linesWhere holds (c :: behind) cs).Sublist (linesWhere holds' (c :: behind') cs) := by
      apply ih
      · rw [List.count_cons, List.count_cons, hcount]
      · intro a b hab hb hholds
        have := h (c :: a) b (by rw [hab]; rfl) hb
        simp only [List.reverse_cons, List.append_assoc, List.singleton_append] at this
        exact this hholds
    have hhere : holds behind (c :: cs) = true → holds' behind' (c :: cs) = true :=
      h [] (c :: cs) rfl (List.cons_ne_nil c cs)
    rw [linesWhere, linesWhere, hcount]
    cases hq : holds behind (c :: cs) with
    | true =>
      rw [if_pos rfl, if_pos (hhere hq)]
      exact hrest.cons_cons _
    | false =>
      rw [if_neg Bool.false_ne_true]
      split
      · exact hrest.cons _
      · exact hrest

theorem linesWhere_congr {holds holds' : List Char → List Char → Bool}
    {behind behind' : List Char} (text : List Char)
    (hcount : behind.count '\n' = behind'.count '\n')
    (h : ∀ a b, text = a ++ b → b ≠ [] →
      holds (a.reverse ++ behind) b = holds' (a.reverse ++ behind') b) :
    linesWhere holds behind text = linesWhere holds' behind' text := by
  have hle := linesWhere_sublist text hcount fun a b hab hb hq => (h a b hab hb).symm.trans hq
  have hge := linesWhere_sublist text hcount.symm fun a b hab hb hq => (h a b hab hb).trans hq
  exact hle.eq_of_length_le hge.length_le

/-- The number of places does not depend on the lines behind. -/
theorem length_linesWhere_congr {holds holds' : List Char → List Char → Bool}
    {behind behind' : List Char} (text : List Char)
    (h : ∀ a b, text = a ++ b → b ≠ [] →
      holds (a.reverse ++ behind) b = holds' (a.reverse ++ behind') b) :
    (linesWhere holds behind text).length = (linesWhere holds' behind' text).length := by
  induction text generalizing behind behind' with
  | nil => rfl
  | cons c cs ih =>
    have hrest : (linesWhere holds (c :: behind) cs).length
        = (linesWhere holds' (c :: behind') cs).length := by
      apply ih
      intro a b hab hb
      have := h (c :: a) b (by rw [hab]; rfl) hb
      simp only [List.reverse_cons, List.append_assoc, List.singleton_append] at this
      exact this
    have hhere : holds behind (c :: cs) = holds' behind' (c :: cs) :=
      h [] (c :: cs) rfl (List.cons_ne_nil c cs)
    rw [linesWhere, linesWhere, hhere]
    split <;> simp [hrest]

theorem linesWhere_eq_nil {holds : List Char → List Char → Bool} {behind : List Char}
    (text : List Char)
    (h : ∀ a b, text = a ++ b → b ≠ [] → holds (a.reverse ++ behind) b = false) :
    linesWhere holds behind text = [] := by
  have hnone : ∀ (behind text : List Char), linesWhere (fun _ _ => false) behind text = [] := by
    intro behind text
    induction text generalizing behind with
    | nil => rfl
    | cons c cs ih => exact ih (c :: behind)
  rw [← hnone behind text]
  exact linesWhere_congr text rfl h

theorem linesWhere_ne_nil {holds : List Char → List Char → Bool} {behind a b : List Char}
    (hb : b ≠ []) (h : holds (a.reverse ++ behind) b = true) :
    linesWhere holds behind (a ++ b) ≠ [] := by
  obtain ⟨c, b, rfl⟩ := List.exists_cons_of_ne_nil hb
  rw [linesWhere_append, linesWhere, if_pos h]
  simp

/-! ## Occurrences at every place -/

/-- Whether a pattern can be read at a place, and what it leaves is of some kind. -/
def reports (p : Pattern) (keep : List Char → Bool) (behind text : List Char) : Bool :=
  (p.readAt behind text).any fun hit => keep hit.rest

/-- What a pattern has read at a place is no obstacle to another place: inside of it the pattern
cannot be read. -/
def SelfAvoiding (p : Pattern) : Prop :=
  ∀ behind text hit, p.readAt behind text = some hit → ∀ a z, a ≠ [] → z ≠ [] →
    text = a ++ (z ++ hit.rest) → p.readAt (a.reverse ++ behind) (z ++ hit.rest) = none

theorem readAt_of_read_none {p : Pattern} {text : List Char} (h : p.read text = none)
    (behind : List Char) : p.readAt behind text = none := by
  unfold readAt
  split
  · rfl
  · exact h

theorem reports_of_readAt {p : Pattern} {keep : List Char → Bool} {behind text : List Char}
    {hit : Hit} (h : p.readAt behind text = some hit) :
    p.reports keep behind text = keep hit.rest := by
  rw [reports, h, Option.any_some]

theorem reports_of_readAt_none {p : Pattern} {keep : List Char → Bool} {behind text : List Char}
    (h : p.readAt behind text = none) : p.reports keep behind text = false := by
  rw [reports, h, Option.any_none]

theorem exists_of_reports {p : Pattern} {keep : List Char → Bool} {behind text : List Char}
    (h : p.reports keep behind text = true) :
    ∃ hit, p.readAt behind text = some hit ∧ keep hit.rest = true := by
  cases hread : p.readAt behind text with
  | none =>
    rw [reports_of_readAt_none hread] at h
    cases h
  | some hit => exact ⟨hit, rfl, by rwa [reports_of_readAt hread] at h⟩

/-- An occurrence begins before the end of a text and ends behind it. -/
def Overruns (o : Occurrence) (front : List Char) : Prop :=
  o.behind.length < front.length ∧ front.length < o.behind.length + o.matched.length

instance (o : Occurrence) (front : List Char) : Decidable (Overruns o front) :=
  inferInstanceAs (Decidable (_ ∧ _))

/-- Where a pattern can be read and no occurrence runs over the place, there is one. -/
theorem Scan.mem_of_readAt {p : Pattern} (hcons : p.Consuming) {behind text : List Char}
    {os : List Occurrence} (h : p.Scan behind text os) (a m : List Char)
    {captured : List (List Char)} {rest : List Char} (htext : text = a ++ (m ++ rest))
    (hread : p.readAt (a.reverse ++ behind) (m ++ rest) = some ⟨captured, rest⟩)
    (hfree : ∀ o ∈ os, ¬ Overruns o (behind.reverse ++ a)) :
    ⟨a.reverse ++ behind, m, captured, rest⟩ ∈ os := by
  induction h generalizing a with
  | done =>
    obtain ⟨rfl, hm⟩ := List.append_eq_nil_iff.mp htext.symm
    rw [hm, hcons.readAt_eq_none fun hit _ => Nat.not_lt_zero _] at hread
    cases hread
  | skip hnone h ih =>
    cases a with
    | nil =>
      rw [List.nil_append] at htext
      rw [← htext, List.reverse_nil, List.nil_append, hcons.readAt_eq_none hnone] at hread
      cases hread
    | cons d a =>
      obtain ⟨rfl, hcs⟩ := List.cons.inj htext
      simp only [List.reverse_cons, List.append_assoc, List.singleton_append] at hread hfree ih ⊢
      exact ih a hcs hread hfree
  | @find behind matched after captured' os hne hhit h ih =>
    obtain ⟨hhere, hfree⟩ := List.forall_mem_cons.mp hfree
    have hlater : ∀ a', a = matched ++ a' → after = a' ++ (m ++ rest) →
        ⟨a.reverse ++ behind, m, captured, rest⟩ ∈ os := by
      rintro a' rfl hrest
      simp only [List.reverse_append, List.append_assoc, List.reverse_reverse] at hread hfree ih ⊢
      exact ih a' hrest hread hfree
    rcases List.append_eq_append_iff.mp htext with ⟨a', ha, hrest⟩ | ⟨z, hz, hrest⟩
    · exact List.mem_cons_of_mem _ (hlater a' ha hrest)
    · by_cases hnil : z = []
      · rw [hnil, List.append_nil] at hz
        rw [hnil, List.nil_append] at hrest
        exact List.mem_cons_of_mem _ (hlater [] (by rw [hz, List.append_nil]) hrest.symm)
      · cases a with
        | nil =>
          rw [List.nil_append] at htext
          rw [← htext, List.reverse_nil, List.nil_append, hhit] at hread
          obtain ⟨rfl, rfl⟩ := Hit.mk.inj (Option.some.inj hread)
          obtain rfl : matched = m := List.append_cancel_right htext
          exact List.mem_cons_self
        | cons d a =>
          -- what is found here begins before the place and ends behind it
          refine absurd ⟨?_, ?_⟩ hhere
          · simp
          · show (behind.reverse ++ d :: a).length < behind.length + matched.length
            have := List.length_pos_iff.mpr hnil
            rw [hz, List.length_append, List.length_append, List.length_reverse]
            omega

theorem mem_occurrences_of_readAt {p : Pattern} (hlawful : p.Lawful) (hcons : p.Consuming)
    {text a m rest : List Char} {captured : List (List Char)} (htext : text = a ++ (m ++ rest))
    (hread : p.readAt a.reverse (m ++ rest) = some ⟨captured, rest⟩)
    (hfree : ∀ o ∈ p.occurrences text, ¬ Overruns o a) :
    ⟨a.reverse, m, captured, rest⟩ ∈ p.occurrences text := by
  rw [← List.append_nil a.reverse] at hread ⊢
  exact (scan_occurrencesFrom hlawful [] text).mem_of_readAt hcons a m htext hread hfree

/-- What has been read counts once, at its first place. -/
theorem SelfAvoiding.linesWhere_append {p : Pattern} (havoid : p.SelfAvoiding)
    {behind matched rest : List Char} {captured : List (List Char)} (hne : matched ≠ [])
    (hread : p.readAt behind (matched ++ rest) = some ⟨captured, rest⟩) (keep : List Char → Bool) :
    linesWhere (p.reports keep) behind (matched ++ rest)
      = (if keep rest then [behind.count '\n' + 1] else [])
        ++ linesWhere (p.reports keep) (matched.reverse ++ behind) rest := by
  obtain ⟨c, inner, rfl⟩ := List.exists_cons_of_ne_nil hne
  -- behind the first character of what was read nothing can be read up to its end
  have hinner : linesWhere (fun behind text => p.reports keep behind (text ++ rest))
      (c :: behind) inner = [] := by
    apply linesWhere_eq_nil
    intro a z haz hz
    have hnone := havoid behind _ _ hread (c :: a) z (by simp) hz (by rw [haz]; simp)
    rw [List.reverse_cons, List.append_assoc, List.singleton_append] at hnone
    exact reports_of_readAt_none hnone
  rw [Pattern.linesWhere_append, linesWhere, hinner, reports_of_readAt hread]

/-- The occurrences of a pattern that avoids itself are at all places where it can be read. -/
theorem map_line_filter_occurrencesFrom {p : Pattern} (hlawful : p.Lawful) (hcons : p.Consuming)
    (havoid : p.SelfAvoiding) (keep : List Char → Bool) (behind text : List Char) :
    ((p.occurrencesFrom behind text).filter fun o => keep o.after).map Occurrence.line
      = linesWhere (p.reports keep) behind text := by
  have hscan := scan_occurrencesFrom hlawful behind text
  generalize p.occurrencesFrom behind text = os at hscan ⊢
  induction hscan with
  | done => rfl
  | skip hread h ih =>
    rw [linesWhere, reports_of_readAt_none (hcons.readAt_eq_none hread)]
    exact ih
  | find hne hread h ih =>
    rw [havoid.linesWhere_append hne hread keep, ← ih, List.filter_cons]
    split <;> rfl

/-- The number of occurrences of a pattern that avoids itself. -/
theorem length_occurrences {p : Pattern} (hlawful : p.Lawful) (hcons : p.Consuming)
    (havoid : p.SelfAvoiding) (text : List Char) :
    (p.occurrences text).length = (linesWhere (p.reports fun _ => true) [] text).length := by
  rw [← map_line_filter_occurrencesFrom hlawful hcons havoid]
  rw [List.length_map, List.filter_eq_self.mpr fun _ _ => rfl]
  rfl

/-! ## Joints -/

section
variable {p : Pattern} {Spelt : List Char → List (List Char) → Prop}

theorem Spells.selfAvoiding (h : p.Spells Spelt)
    (havoid : ∀ {a z m rest rest' : List Char} {captured captured' : List (List Char)},
      Spelt (a ++ z) captured → a ≠ [] → z ≠ [] → wordBehind a.reverse = false →
        Spelt m captured' → z ++ rest = m ++ rest' → False) : p.SelfAvoiding := by
  intro behind text hit hread a z ha hz htext
  obtain ⟨-, m, hm, hparts⟩ := h.readAt_iff.mp hread
  have hmaz : m = a ++ z := by
    rw [hparts, ← List.append_assoc] at htext
    exact List.append_cancel_right htext
  cases hinner : p.readAt (a.reverse ++ behind) (z ++ hit.rest) with
  | none => rfl
  | some hit' =>
    obtain ⟨hword, m', hm', hparts'⟩ := h.readAt_iff.mp hinner
    rw [wordBehind_append (by simpa using ha)] at hword
    exact (havoid (hmaz ▸ hm) ha hz hword hm' hparts').elim

/-- What is read at a place depends on what stands behind only through one character. -/
theorem readAt_congr (p : Pattern) {behind behind' : List Char}
    (hword : wordBehind behind = wordBehind behind') (text : List Char) :
    p.readAt behind text = p.readAt behind' text := by
  unfold wordBehind at hword
  unfold readAt
  rw [hword]

theorem reports_congr (p : Pattern) {behind behind' : List Char}
    (hword : wordBehind behind = wordBehind behind') (keep : List Char → Bool) (text : List Char) :
    p.reports keep behind text = p.reports keep behind' text := by
  rw [reports, reports, p.readAt_congr hword]

theorem linesWhere_behind (p : Pattern) {behind behind' : List Char}
    (hcount : behind.count '\n' = behind'.count '\n')
    (hword : wordBehind behind = wordBehind behind') (keep : List Char → Bool) (text : List Char) :
    linesWhere (p.reports keep) behind text = linesWhere (p.reports keep) behind' text := by
  apply linesWhere_congr text hcount
  intro a b hab hb
  exact p.reports_congr (wordBehind_append_congr hword _) keep b

/-- What is read at the start of a text is read there with more behind it. -/
theorem Spells.readAt_extend (h : p.Spells Spelt) {behind text : List Char} {hit : Hit}
    (hread : p.readAt behind text = some hit) (more : List Char) :
    p.readAt behind (text ++ more) = some ⟨hit.captured, hit.rest ++ more⟩ := by
  obtain ⟨hword, m, hm, rfl⟩ := h.readAt_iff.mp hread
  exact h.readAt_iff.mpr ⟨hword, m, hm, List.append_assoc m _ _⟩

/-- No text of a set that begins in a text runs over its end into another. -/
def Uncrossed (Spelt : List Char → List (List Char) → Prop) (a b : List Char) : Prop :=
  ∀ {front z beyond rest : List Char} {captured : List (List Char)}, a = front ++ z → z ≠ [] →
    beyond ≠ [] → b = beyond ++ rest → ¬ Spelt (z ++ beyond) captured

/-- What is read in a text with another behind it is what is read in it alone. -/
theorem Spells.readAt_append (h : p.Spells Spelt) {a b front z : List Char}
    (hab : Uncrossed Spelt a b) (ha : a = front ++ z) (hz : z ≠ []) (behind : List Char) :
    p.readAt behind (z ++ b) = (p.readAt behind z).map fun hit => ⟨hit.captured, hit.rest ++ b⟩ := by
  cases hread : p.readAt behind (z ++ b) with
  | some hit =>
    obtain ⟨hword, m, hm, hparts⟩ := h.readAt_iff.mp hread
    rcases List.append_eq_append_iff.mp hparts with ⟨beyond, rfl, hb⟩ | ⟨rest, hzm, hrest⟩
    · cases beyond with
      | nil =>
        rw [List.append_nil] at hm
        have hfull : p.readAt behind z = some ⟨hit.captured, []⟩ :=
          h.readAt_iff.mpr ⟨hword, z, hm, (List.append_nil z).symm⟩
        rw [hfull, Option.map_some, List.nil_append, hb, List.nil_append]
      | cons c beyond => exact absurd hm (hab ha hz (List.cons_ne_nil c beyond) hb)
    · have hpart : p.readAt behind z = some ⟨hit.captured, rest⟩ :=
        h.readAt_iff.mpr ⟨hword, m, hm, hzm⟩
      rw [hpart, Option.map_some, ← hrest]
  | none =>
    cases halone : p.readAt behind z with
    | none => rfl
    | some hit =>
      have hmore := h.readAt_extend halone b
      rw [hread] at hmore
      cases hmore

/-- The lines of two joined texts, where nothing runs over the joint. -/
theorem Spells.linesWhere_append (h : p.Spells Spelt) {a b : List Char}
    (hab : Uncrossed Spelt a b) (behind : List Char) :
    linesWhere (p.reports fun _ => true) behind (a ++ b)
      = linesWhere (p.reports fun _ => true) behind a
        ++ linesWhere (p.reports fun _ => true) (a.reverse ++ behind) b := by
  rw [Pattern.linesWhere_append]
  congr 1
  apply linesWhere_congr a rfl
  intro front z ha hz
  rw [reports, reports, h.readAt_append hab ha hz, Option.any_map]

theorem Uncrossed.of_append {x a b : List Char} (h : Uncrossed Spelt (x ++ a) b) :
    Uncrossed Spelt a b := by
  intro front z beyond rest captured ha hz hover hb
  exact h (by rw [ha, List.append_assoc]) hz hover hb

/-! ## What stands behind the occurrences -/

/-- What stands behind each of the occurrences. -/
def afters (p : Pattern) (behind text : List Char) : List (List Char) :=
  (p.occurrencesFrom behind text).map Occurrence.after

@[simp] theorem afters_nil (p : Pattern) (behind : List Char) : p.afters behind [] = [] := by
  rw [afters, occurrencesFrom_nil]
  rfl

theorem afters_of_readAt_none {behind cs : List Char} {c : Char}
    (h : p.readAt behind (c :: cs) = none) : p.afters behind (c :: cs) = p.afters (c :: behind) cs := by
  rw [afters, occurrencesFrom_of_readAt_none h]
  rfl

theorem afters_of_readAt {behind m rest : List Char} {captured : List (List Char)} (hm : m ≠ [])
    (h : p.readAt behind (m ++ rest) = some ⟨captured, rest⟩) :
    p.afters behind (m ++ rest) = rest :: p.afters (m.reverse ++ behind) rest := by
  rw [afters, occurrencesFrom_of_readAt hm h]
  rfl

theorem length_lt_of_mem_afters (hlawful : p.Lawful) (hcons : p.Consuming)
    {behind text after : List Char} (h : after ∈ p.afters behind text) :
    after.length < text.length := by
  obtain ⟨o, ho, rfl⟩ := List.mem_map.mp h
  have hlt := hcons _ _ (read_of_readAt (readAt_of_mem_occurrencesFrom hlawful ho))
  obtain ⟨hparts, hbehind⟩ := occurrencesFrom_parts hlawful ho
  have hlength := congrArg List.length hparts
  have hle := hbehind.length_le
  simp only [List.length_append, List.length_reverse] at hlength hlt
  omega

/-- Of what stands behind a text one character counts. -/
theorem Spells.afters_congr (h : p.Spells Spelt) {behind behind' : List Char}
    (hword : wordBehind behind = wordBehind behind') (text : List Char) :
    p.afters behind text = p.afters behind' text := by
  rw [afters]
  have hscan := scan_occurrencesFrom h.lawful behind text
  generalize p.occurrencesFrom behind text = os at hscan ⊢
  induction hscan generalizing behind' with
  | done => rw [afters_nil, List.map_nil]
  | skip hread hscan ih =>
    have hnone := h.consuming.readAt_eq_none hread
    rw [afters_of_readAt_none ((p.readAt_congr hword _).symm.trans hnone)]
    exact ih rfl
  | find hne hread hscan ih =>
    rw [afters_of_readAt hne ((p.readAt_congr hword _).symm.trans hread)]
    exact congrArg (_ :: ·) (ih (wordBehind_append_congr hword _))

/-- The occurrences of two joined texts, where nothing runs over the joint. -/
theorem Spells.afters_append (h : p.Spells Spelt) {a b : List Char} (hab : Uncrossed Spelt a b)
    (behind : List Char) :
    p.afters behind (a ++ b) = (p.afters behind a).map (· ++ b) ++ p.afters (a.reverse ++ behind) b := by
  rw [show p.afters behind a = (p.occurrencesFrom behind a).map Occurrence.after from rfl]
  have hscan := scan_occurrencesFrom h.lawful behind a
  generalize p.occurrencesFrom behind a = os at hscan ⊢
  induction hscan with
  | done => simp
  | @skip behind cs c os hread hscan ih =>
    have hmore : p.readAt behind (c :: (cs ++ b)) = none := by
      rw [← List.cons_append, h.readAt_append hab (List.nil_append _).symm (by simp),
        h.consuming.readAt_eq_none hread]
      rfl
    rw [List.cons_append, afters_of_readAt_none hmore, ih (Uncrossed.of_append (x := [c]) hab)]
    simp
  | find hne hread hscan ih =>
    have hmore := h.readAt_extend hread b
    rw [List.append_assoc] at hmore ⊢
    rw [afters_of_readAt hne hmore, ih hab.of_append]
    simp

end

end Pattern

end DefectScan
