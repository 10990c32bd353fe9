import DefectScan.Learning.Classifier
import DefectScan.Proofs.FittedModel
import Mathlib.Logic.Function.Iterate

/-!
# A text as its known words

A vectorizer without flaws sees of a text how often each of its terms occurs among the tokens, and
nothing else: not their order, and no token that is not a term. The terms are in strict order, so a
token is found exactly at its own column,

    column? terms t 0 terms.size = some i ↔ terms[i]? = some t

and each token that is found adds one to that column. Before they are weighed, the numbers of a text
are those of its terms:

    v.counts tokens = v.terms.map fun t => (· + 1)^[tokens.count t] 0

Texts that agree in these have the same vector, so every model judges them alike.
-/

namespace DefectScan.Learning

namespace Vectorizer

/-! ## The column of a term -/

section
variable {terms : List String} (hsorted : terms.Pairwise (· < ·))

include hsorted

/-- Terms are ordered as their columns are. -/
theorem column_lt_iff {i j : Nat} {s t : String} (hi : terms[i]? = some s)
    (hj : terms[j]? = some t) : s < t ↔ i < j := by
  obtain ⟨hi', rfl⟩ := List.getElem?_eq_some_iff.mp hi
  obtain ⟨hj', rfl⟩ := List.getElem?_eq_some_iff.mp hj
  have hpairs := List.pairwise_iff_getElem.mp hsorted
  rcases Nat.lt_trichotomy i j with h | rfl | h
  · exact iff_of_true (hpairs i j hi' hj' h) h
  · exact iff_of_false (lt_irrefl _) (Nat.lt_irrefl i)
  · exact iff_of_false (lt_asymm (hpairs j i hj' hi' h)) (Nat.lt_asymm h)

theorem column_unique {i j : Nat} {t : String} (hi : terms[i]? = some t)
    (hj : terms[j]? = some t) : i = j := by
  have hnot := (column_lt_iff hsorted hi hj).not.mp (lt_irrefl t)
  have hnot' := (column_lt_iff hsorted hj hi).not.mp (lt_irrefl t)
  omega

/-- The search narrows the columns at which the term can still be. -/
theorem column?_between (t : String) (low : Nat) {high : Nat} (hhigh : high ≤ terms.length) (i : Nat) :
    column? terms.toArray t low high = some i ↔ low ≤ i ∧ i < high ∧ terms[i]? = some t := by
  have hread : ∀ k, k < terms.length → terms[k]? = some (terms.toArray.getD k "") := by
    intro k hk
    simp [hk]
  fun_induction column? terms.toArray t low high with
  | case1 low high hlt mid m hm =>
    have hmid : terms[mid]? = some t := (hread mid (by omega)).trans (congrArg some hm)
    constructor
    · intro h
      obtain rfl := Option.some.inj h
      exact ⟨by omega, by omega, hmid⟩
    · rintro ⟨-, -, hi⟩
      rw [column_unique hsorted hmid hi]
  | case2 low high hlt mid m hm hless ih =>
    have hmid : terms[mid]? = some m := hread mid (by omega)
    refine (ih hhigh).trans ?_
    constructor
    · rintro ⟨hlow, hi⟩
      exact ⟨by omega, hi⟩
    · rintro ⟨-, hi⟩
      exact ⟨(column_lt_iff hsorted hmid hi.2).mp hless, hi⟩
  | case3 low high hlt mid m hm hless ih =>
    have hmid : terms[mid]? = some m := hread mid (by omega)
    have hgreater : t < m := lt_of_le_of_ne (not_lt.mp hless) (Ne.symm hm)
    refine (ih (by omega)).trans ?_
    constructor
    · rintro ⟨hlow, hi, ht⟩
      exact ⟨hlow, by omega, ht⟩
    · rintro ⟨hlow, -, ht⟩
      exact ⟨hlow, (column_lt_iff hsorted ht hmid).mp hgreater, ht⟩
  | case4 low high hlt =>
    refine iff_of_false (Option.some_ne_none i).symm ?_
    rintro ⟨hlow, hi, -⟩
    omega

theorem column?_eq_some_iff {t : String} {i : Nat} :
    column? terms.toArray t 0 terms.toArray.size = some i ↔ terms[i]? = some t := by
  rw [column?_between hsorted t 0 (Nat.le_of_eq List.size_toArray) i]
  refine ⟨fun h => h.2.2, fun h => ⟨Nat.zero_le i, ?_, h⟩⟩
  rw [List.size_toArray]
  exact (List.getElem?_eq_some_iff.mp h).1

theorem column?_eq_none_iff {t : String} :
    column? terms.toArray t 0 terms.toArray.size = none ↔ t ∉ terms := by
  rw [← not_iff_not, Classical.not_not, ← ne_eq, Option.ne_none_iff_exists']
  simp only [column?_eq_some_iff hsorted, List.mem_iff_getElem?]

/-! ## Counting tokens -/

/-- A column gets one for each time that its own term occurs. -/
theorem getElem?_countTokens {t : String} {i : Nat} (ht : terms[i]? = some t)
    (counts : Array Float) (tokens : List String) :
    (countTokens terms.toArray counts tokens)[i]?
      = counts[i]?.map (· + 1)^[tokens.count t] := by
  induction tokens generalizing counts with
  | nil => simp [countTokens]
  | cons u us ih =>
    rw [countTokens]
    split
    · next j hj =>
      have hu := (column?_eq_some_iff hsorted).mp hj
      rw [ih, Array.getElem?_modify]
      by_cases hji : j = i
      · obtain rfl : u = t := by
          rw [hji] at hu
          exact Option.some.inj (hu.symm.trans ht)
        rw [if_pos hji, List.count_cons_self, Option.map_map]
        rfl
      · have hne : u ≠ t := fun h => hji (column_unique hsorted hu (h ▸ ht))
        rw [if_neg hji, List.count_cons_of_ne hne]
    · next hnone =>
      have hne : u ≠ t := by
        rintro rfl
        exact (column?_eq_none_iff hsorted).mp hnone (List.mem_of_getElem? ht)
      rw [ih, List.count_cons_of_ne hne]

/-- Tokens that are no terms count for nothing. -/
theorem countTokens_filter (counts : Array Float) (tokens : List String) :
    countTokens terms.toArray counts (tokens.filter (· ∈ terms))
      = countTokens terms.toArray counts tokens := by
  induction tokens generalizing counts with
  | nil => rfl
  | cons u us ih =>
    by_cases hu : u ∈ terms
    · rw [List.filter_cons_of_pos (by simpa using hu), countTokens, countTokens]
      split
      · exact ih _
      · exact ih counts
    · rw [List.filter_cons_of_neg (by simpa using hu), ih, countTokens,
        (column?_eq_none_iff hsorted).mpr hu]

end

/-- The numbers of the tokens of a text before they are weighed. -/
def counts (v : Vectorizer) (tokens : List String) : List Float :=
  (countTokens v.terms.toArray (Array.replicate v.terms.toArray.size 0) tokens).toList

theorem transform_eq (v : Vectorizer) (text : String) :
    v.transform text = normalise (weigh (v.counts (tokenize text)) v.idf) := rfl

theorem Sound.counts_eq {v : Vectorizer} (h : v.Sound) (tokens : List String) :
    v.counts tokens = v.terms.map fun t => (· + 1)^[tokens.count t] 0 := by
  apply List.ext_getElem?
  intro i
  rw [counts, Array.getElem?_toList, List.getElem?_map]
  cases ht : v.terms[i]? with
  | some t =>
    have hi := (List.getElem?_eq_some_iff.mp ht).1
    rw [getElem?_countTokens h.increasing ht, Array.getElem?_replicate,
      if_pos (by rwa [List.size_toArray])]
    rfl
  | none =>
    refine Array.getElem?_eq_none ?_
    rw [size_countTokens, Array.size_replicate, List.size_toArray]
    exact List.getElem?_eq_none_iff.mp ht

theorem Sound.counts_filter {v : Vectorizer} (h : v.Sound) (tokens : List String) :
    v.counts (tokens.filter (· ∈ v.terms)) = v.counts tokens := by
  rw [counts, counts, countTokens_filter h.increasing]

theorem Sound.transform_congr {v : Vectorizer} (h : v.Sound) {a b : String}
    (hab : ∀ t ∈ v.terms, (tokenize a).count t = (tokenize b).count t) :
    v.transform a = v.transform b := by
  have hcounts : v.counts (tokenize a) = v.counts (tokenize b) := by
    rw [h.counts_eq, h.counts_eq]
    exact List.map_congr_left fun t ht => by rw [hab t ht]
  rw [transform_eq, transform_eq, hcounts]

end Vectorizer

/-! ## Main result -/

/-- A model sees of a text only its vector. -/
theorem Model.judges_alike {m : Model} {a b : String}
    (h : m.vectorizer.transform a = m.vectorizer.transform b) :
    m.probabilities a = m.probabilities b ∧ m.positive a = m.positive b ∧
      ∀ c : Classifier, c.model = some m → c.predict a = c.predict b := by
  have hprobabilities : m.probabilities a = m.probabilities b := by
    rw [Model.probabilities, Model.probabilities, h]
  have hpositive : m.positive a = m.positive b := by
    rw [Model.positive, Model.positive, hprobabilities]
  refine ⟨hprobabilities, hpositive, fun c hc => ?_⟩
  simp only [Classifier.predict, hc, hpositive]

namespace Vectorizer

/-- The numbers of a text before they are weighed are the numbers of the terms among its tokens: a
token that is a term is found at its own column, and the others are found nowhere and count for
nothing. So texts in which each term occurs equally often have the same vector, and a model over the
vectorizer gives them the same probabilities and predictions. -/
theorem transform_of_known_words (v : Vectorizer) (hv : v.flaw? = none) :
    (∀ (token : String) (i : Nat),
      column? v.terms.toArray token 0 v.terms.toArray.size = some i ↔ v.terms[i]? = some token) ∧
    (∀ tokens, v.counts tokens = v.terms.map fun term => (· + 1)^[tokens.count term] 0.0) ∧
    (∀ tokens, v.counts (tokens.filter (· ∈ v.terms)) = v.counts tokens) ∧
    (∀ text, v.transform text = normalise (weigh (v.counts (tokenize text)) v.idf)) ∧
    ∀ a b, (∀ term ∈ v.terms, (tokenize a).count term = (tokenize b).count term) →
      v.transform a = v.transform b ∧
      ∀ m : Model, m.vectorizer = v →
        m.probabilities a = m.probabilities b ∧ m.positive a = m.positive b ∧
          ∀ c : Classifier, c.model = some m → c.predict a = c.predict b := by
  have hsound := (flaw?_eq_none_iff v).mp hv
  refine ⟨fun token i => column?_eq_some_iff hsound.increasing, hsound.counts_eq,
    hsound.counts_filter, v.transform_eq, fun a b hab => ⟨hsound.transform_congr hab, ?_⟩⟩
  rintro m rfl
  exact Model.judges_alike (hsound.transform_congr hab)

def copyAndFree : Vectorizer := ⟨["copy", "free"], [0.5, 2]⟩

/-- Another order, capital letters and an unknown word make no difference. -/
theorem transform_of_known_words_shuffled :
    copyAndFree.flaw? = none ∧
    tokenize "free(copy); copy x" = ["free", "copy", "copy"] ∧
    tokenize "COPY: copy, other; free" = ["copy", "copy", "other", "free"] ∧
    copyAndFree.transform "free(copy); copy x" = copyAndFree.transform "COPY: copy, other; free" := by
  have hflaw : copyAndFree.flaw? = none := by decide
  have htokens : tokenize "free(copy); copy x" = ["free", "copy", "copy"] ∧
      tokenize "COPY: copy, other; free" = ["copy", "copy", "other", "free"] := by decide +kernel
  have hcounts : ∀ term ∈ copyAndFree.terms, (tokenize "free(copy); copy x").count term
      = (tokenize "COPY: copy, other; free").count term := by
    rw [htokens.1, htokens.2]
    decide
  obtain ⟨-, -, -, -, hsame⟩ := transform_of_known_words copyAndFree hflaw
  exact ⟨hflaw, htokens.1, htokens.2, (hsame _ _ hcounts).1⟩

end Vectorizer

end DefectScan.Learning
