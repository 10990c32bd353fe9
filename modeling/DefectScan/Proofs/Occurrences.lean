import DefectScan.Lexical
import DefectScan.Proofs.Lines

/-!
# Where patterns occur

A pattern is lawful if what it leaves is the end of what it was given (`Pattern.Lawful`). The parts
of an occurrence of a lawful pattern then make up the text,

    o.behind.reverse ++ (o.matched ++ o.after) = text

so that its line is one of the lines of the text, and each occurrence begins behind the ones before
it. Both are read off the steps of the search (`Pattern.Scan`). All patterns of the lexical rules are
lawful. Hence the findings of a rule are on lines of the text and go down the text
(`Rule.line_of_mem_findings`, `Rule.findings_pairwise`).
-/

namespace DefectScan

open Text

/-! ## Parts of patterns leave the end of a text -/

namespace Pattern

theorem literal_suffix {w text rest : List Char} (h : literal w text = some rest) :
    rest <:+ text := by
  induction w generalizing text with
  | nil =>
    cases h
    exact List.suffix_rfl
  | cons c w ih =>
    cases text with
    | nil => cases h
    | cons d text =>
      rw [literal] at h
      split at h
      · exact (ih h).trans (List.suffix_cons d text)
      · cases h

theorem word_suffix {w : String} {text rest : List Char} (h : word w text = some rest) :
    rest <:+ text :=
  literal_suffix h

theorem blanks_suffix (text : List Char) : blanks text <:+ text := List.dropWhile_suffix _

theorem mark_suffix {m : String} {text rest : List Char} (h : mark m text = some rest) :
    rest <:+ text :=
  (word_suffix h).trans (blanks_suffix text)

theorem someBlanks_suffix {text rest : List Char} (h : someBlanks text = some rest) :
    rest <:+ text := by
  cases text with
  | nil => cases h
  | cons c cs =>
    rw [someBlanks] at h
    split at h
    · cases h
      exact (blanks_suffix cs).trans (List.suffix_cons c cs)
    · cases h

theorem someWord_suffix {text w rest : List Char} (h : someWord text = some (w, rest)) :
    rest <:+ text := by
  unfold someWord at h
  split at h
  · cases h
  · cases h
    exact List.dropWhile_suffix _

/-- A pattern that leaves the end of what it was given. -/
def Lawful (p : Pattern) : Prop := ∀ text hit, p.read text = some hit → hit.rest <:+ text

/-! ## Steps of a scan -/

theorem readAt_suffix {p : Pattern} (hp : p.Lawful) {behind text : List Char} {hit : Hit}
    (h : p.readAt behind text = some hit) : hit.rest <:+ text := by
  unfold readAt at h
  split at h
  · cases h
  · exact hp text hit h

theorem take_append_of_suffix {text rest : List Char} (h : rest <:+ text) :
    text.take (text.length - rest.length) ++ rest = text := by
  obtain ⟨front, rfl⟩ := h
  simp

theorem ne_nil_of_length_lt {m rest text : List Char} (h : m ++ rest = text)
    (hlt : rest.length < text.length) : m ≠ [] := by
  rintro rfl
  rw [← h] at hlt
  exact Nat.lt_irrefl _ hlt

@[simp] theorem occurrencesFrom_nil (p : Pattern) (behind : List Char) :
    p.occurrencesFrom behind [] = [] := by
  rw [occurrencesFrom]

theorem occurrencesFrom_of_readAt_none {p : Pattern} {behind cs : List Char} {c : Char}
    (h : p.readAt behind (c :: cs) = none) :
    p.occurrencesFrom behind (c :: cs) = p.occurrencesFrom (c :: behind) cs := by
  rw [occurrencesFrom, h]

theorem occurrencesFrom_of_readAt {p : Pattern} {behind m rest : List Char}
    {captured : List (List Char)} (hm : m ≠ [])
    (h : p.readAt behind (m ++ rest) = some ⟨captured, rest⟩) :
    p.occurrencesFrom behind (m ++ rest)
      = ⟨behind, m, captured, rest⟩ :: p.occurrencesFrom (m.reverse ++ behind) rest := by
  obtain ⟨c, m, rfl⟩ := List.exists_cons_of_ne_nil hm
  have hlt : rest.length < (c :: m ++ rest).length := by
    simp only [List.length_append, List.length_cons]
    omega
  have htake : (c :: m ++ rest).take ((c :: m ++ rest).length - rest.length) = c :: m := by
    rw [List.length_append, Nat.add_sub_cancel]
    exact List.take_left
  rw [List.cons_append] at h hlt htake ⊢
  rw [occurrencesFrom, h]
  simp only [if_pos hlt, htake]

/-- A scan of a text, given what stands behind it, with the occurrences that it finds. It passes a
character where it can take nothing from the text, and goes on behind what it finds. -/
inductive Scan (p : Pattern) : List Char → List Char → List Occurrence → Prop
  | done {behind : List Char} : Scan p behind [] []
  | skip {behind cs : List Char} {c : Char} {os : List Occurrence}
      (hread : ∀ hit, p.readAt behind (c :: cs) = some hit → ¬ hit.rest.length < (c :: cs).length)
      (h : Scan p (c :: behind) cs os) : Scan p behind (c :: cs) os
  | find {behind m rest : List Char} {captured : List (List Char)} {os : List Occurrence}
      (hne : m ≠ []) (hread : p.readAt behind (m ++ rest) = some ⟨captured, rest⟩)
      (h : Scan p (m.reverse ++ behind) rest os) :
      Scan p behind (m ++ rest) (⟨behind, m, captured, rest⟩ :: os)

theorem scan_occurrencesFrom {p : Pattern} (hp : p.Lawful) (behind text : List Char) :
    p.Scan behind text (p.occurrencesFrom behind text) := by
  induction behind, text using occurrencesFrom.induct p with
  | case1 behind =>
    rw [occurrencesFrom_nil]
    exact .done
  | case2 behind c cs hread ih =>
    rw [occurrencesFrom_of_readAt_none hread]
    exact .skip (by simp [hread]) ih
  | case3 behind c cs hit hread hlt matched ih =>
    have hwhole : matched ++ hit.rest = c :: cs := take_append_of_suffix (readAt_suffix hp hread)
    have hne := ne_nil_of_length_lt hwhole hlt
    rw [← hwhole] at hread ⊢
    rw [occurrencesFrom_of_readAt hne hread]
    exact .find hne hread ih
  | case4 behind c cs hit hread hnlt ih =>
    rw [occurrencesFrom, hread]
    simp only [if_neg hnlt]
    refine .skip (fun hit' hread' => ?_) ih
    cases hread.symm.trans hread'
    exact hnlt

/-! ## The parts of an occurrence -/

section
variable {p : Pattern} {behind text : List Char} {os : List Occurrence} {o : Occurrence}

theorem Scan.parts (h : p.Scan behind text os) (ho : o ∈ os) :
    o.behind.reverse ++ (o.matched ++ o.after) = behind.reverse ++ text ∧ behind <:+ o.behind := by
  induction h with
  | done => cases ho
  | skip hread h ih =>
    obtain ⟨hparts, hbehind⟩ := ih ho
    exact ⟨by simpa using hparts, (List.suffix_cons _ _).trans hbehind⟩
  | find hne hread h ih =>
    rcases List.mem_cons.mp ho with rfl | ho
    · exact ⟨rfl, List.suffix_rfl⟩
    · obtain ⟨hparts, hbehind⟩ := ih ho
      exact ⟨by simpa using hparts, (List.suffix_append _ _).trans hbehind⟩

theorem Scan.readAt_of_mem (h : p.Scan behind text os) (ho : o ∈ os) :
    p.readAt o.behind (o.matched ++ o.after) = some ⟨o.captured, o.after⟩ := by
  induction h with
  | done => cases ho
  | skip hread h ih => exact ih ho
  | find hne hread h ih =>
    rcases List.mem_cons.mp ho with rfl | ho
    · exact hread
    · exact ih ho

theorem Scan.pairwise (h : p.Scan behind text os) :
    os.Pairwise fun a b => a.behind <:+ b.behind := by
  induction h with
  | done => exact .nil
  | skip hread h ih => exact ih
  | find hne hread h ih =>
    refine List.pairwise_cons.mpr ⟨fun o ho => ?_, ih⟩
    exact (List.suffix_append _ _).trans (h.parts ho).2

/-- The parts of an occurrence make up the text, and nothing of what stood behind is lost. -/
theorem occurrencesFrom_parts (hp : p.Lawful) (h : o ∈ p.occurrencesFrom behind text) :
    o.behind.reverse ++ (o.matched ++ o.after) = behind.reverse ++ text ∧ behind <:+ o.behind :=
  (scan_occurrencesFrom hp behind text).parts h

/-- An occurrence was read where it stands. -/
theorem readAt_of_mem_occurrencesFrom (hp : p.Lawful) (h : o ∈ p.occurrencesFrom behind text) :
    p.readAt o.behind (o.matched ++ o.after) = some ⟨o.captured, o.after⟩ :=
  (scan_occurrencesFrom hp behind text).readAt_of_mem h

end

theorem line_of_mem_occurrences {p : Pattern} (hp : p.Lawful) {text : List Char} {o : Occurrence}
    (h : o ∈ p.occurrences text) : 1 ≤ o.line ∧ o.line ≤ Lines.count text := by
  obtain ⟨hparts, -⟩ := occurrencesFrom_parts hp h
  have hcount := congrArg (List.count '\n') hparts
  simp only [List.count_append, List.count_reverse, List.reverse_nil, List.count_nil] at hcount
  rw [Lines.count_eq]
  unfold Occurrence.line
  omega

theorem occurrences_pairwise_line {p : Pattern} (hp : p.Lawful) (text : List Char) :
    (p.occurrences text).Pairwise fun a b => a.line ≤ b.line := by
  apply (scan_occurrencesFrom hp [] text).pairwise.imp
  intro a b hab
  exact Nat.succ_le_succ (hab.sublist.count_le '\n')

end Pattern

/-! ## The lexical rules -/

namespace Lexical

open Pattern

theorem allocation_lawful : allocation.Lawful := by
  intro text hit h
  simp only [allocation, Option.bind_eq_bind, Option.bind_eq_some_iff] at h
  obtain ⟨afterWord, hword, inside, hmark, h⟩ := h
  split at h
  · cases h
  · next c rest hdrop =>
    split at h
    · cases h
      have hinside : c :: rest <:+ inside := hdrop ▸ List.dropWhile_suffix _
      exact ((List.suffix_cons c rest).trans hinside).trans
        ((mark_suffix hmark).trans (word_suffix hword))
    · cases h

theorem afterLastClose_suffix {text rest : List Char} (h : afterLastClose text = some rest) :
    rest <:+ text := by
  simp only [afterLastClose] at h
  split at h
  · cases h
    exact List.drop_suffix _ _
  · cases h

theorem unboundedWrite_lawful : unboundedWrite.Lawful := by
  intro text hit h
  obtain ⟨f, -, h⟩ := List.exists_of_findSome?_eq_some h
  simp only [Option.bind_eq_bind, Option.bind_eq_some_iff] at h
  obtain ⟨afterWord, hword, inside, hmark, rest, hrest, h⟩ := h
  cases h
  exact (afterLastClose_suffix hrest).trans ((mark_suffix hmark).trans (word_suffix hword))

theorem memberAccess_lawful : memberAccess.Lawful := by
  intro text hit h
  simp only [memberAccess, Option.bind_eq_bind, Option.bind_eq_some_iff] at h
  obtain ⟨⟨name, afterName⟩, hname, afterArrow, harrow, ⟨member, rest⟩, hmember, h⟩ := h
  cases h
  exact ((someWord_suffix hmember).trans (blanks_suffix _)).trans
    ((mark_suffix harrow).trans (someWord_suffix hname))

theorem bareDeclaration_lawful : bareDeclaration.Lawful := by
  intro text hit h
  simp only [bareDeclaration, Option.bind_eq_bind, Option.bind_eq_some_iff] at h
  obtain ⟨afterType, htype, afterBlanks, hblanks, ⟨name, afterName⟩, hname, rest, hrest, h⟩ := h
  cases h
  exact ((mark_suffix hrest).trans (someWord_suffix hname)).trans
    ((someBlanks_suffix hblanks).trans (word_suffix htype))

theorem endlessWhile_lawful : endlessWhile.Lawful := by
  intro text hit h
  simp only [endlessWhile, Option.bind_eq_bind, Option.bind_eq_some_iff] at h
  obtain ⟨afterWord, hword, inside, hmark, afterOne, hone, rest, hrest, h⟩ := h
  cases h
  have hinside : afterOne <:+ inside := by
    rw [Option.orElse_eq_or] at hone
    rcases Option.or_eq_some_iff.mp hone with h1 | ⟨-, htrue⟩
    · exact mark_suffix h1
    · exact mark_suffix htrue
  exact ((mark_suffix hrest).trans hinside).trans ((mark_suffix hmark).trans (word_suffix hword))

theorem endlessFor_lawful : endlessFor.Lawful := by
  intro text hit h
  simp only [endlessFor, Option.bind_eq_bind, Option.bind_eq_some_iff] at h
  obtain ⟨a, hword, b, hopen, c, hfirst, d, hsecond, rest, hclose, h⟩ := h
  cases h
  exact ((mark_suffix hclose).trans (mark_suffix hsecond)).trans
    (((mark_suffix hfirst).trans (mark_suffix hopen)).trans (word_suffix hword))

theorem endlessLoop_lawful : endlessLoop.Lawful := by
  intro text hit h
  simp only [endlessLoop, Option.orElse_eq_or] at h
  rcases Option.or_eq_some_iff.mp h with hwhile | ⟨-, hfor⟩
  · exact endlessWhile_lawful text hit hwhile
  · exact endlessFor_lawful text hit hfor

theorem lawful_of_mem_rules {r : Rule} (h : r ∈ rules) : r.pattern.Lawful := by
  simp only [rules, List.mem_cons, List.not_mem_nil, or_false] at h
  rcases h with rfl | rfl | rfl | rfl | rfl
  · exact allocation_lawful
  · exact unboundedWrite_lawful
  · exact memberAccess_lawful
  · exact bareDeclaration_lawful
  · exact endlessLoop_lawful

theorem Rule.line_of_mem_findings {r : Rule} (hr : r ∈ rules) {text : List Char} {f : Finding}
    (h : f ∈ r.findings text) : 1 ≤ f.line ∧ f.line ≤ Lines.count text := by
  obtain ⟨o, ho, rfl⟩ := List.mem_map.mp h
  exact line_of_mem_occurrences (lawful_of_mem_rules hr) (List.mem_filter.mp ho).1

theorem Rule.findings_pairwise {r : Rule} (hr : r ∈ rules) (text : List Char) :
    (r.findings text).Pairwise fun a b => a.line ≤ b.line := by
  apply List.pairwise_map.mpr
  exact (occurrences_pairwise_line (lawful_of_mem_rules hr) text).filter _

end Lexical

end DefectScan
