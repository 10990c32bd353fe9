import DefectScan.Proofs.FittedModel
import Mathlib.Data.List.Dedup
import Mathlib.Data.List.Permutation
import Mathlib.Data.List.Sort

/-!
# The vocabulary of a corpus

A fitted vectorizer is determined by how often each token occurs and how many texts hold it. Both are
counted in one pass over the tokens. What one token changes (`Counts.Are.addToken`) adds up to the
number of its occurrences and the number of the texts that hold it,

    (Counts.ofTexts texts).Are (fun t => texts.flatten.count t) (fun t => texts.countP (t ∈ ·))

and so does not depend on the order of the texts (`Counts.ofTexts_perm`). The occurrences are in
alphabetical order, and sorting by number keeps that order among equals (`filter_ranked`), so every
entry of the ranking outranks all behind it:

    (ranked counts).Pairwise Outranks

Cut off anywhere, the ranking leaves the most frequent tokens (`fit_mostFrequent`).
-/

namespace DefectScan.Learning

/-! ## Counting -/

/-- An ordered map is known by what it has for each key. -/
theorem ext_get? {ν : Type} {m m' : OrderedMap String ν} (h : ∀ k, m.get? k = m'.get? k) : m = m' := by
  have hnodup (m : OrderedMap String ν) : m.entries.Nodup := List.Nodup.of_map _ (nodup_keys m)
  have hperm : m.entries.Perm m'.entries := by
    rw [List.perm_ext_iff_of_nodup (hnodup m) (hnodup m')]
    intro e
    rw [m.mem_entries, m'.mem_entries, h]
  have hentries := hperm.eq_of_pairwise (fun a b _ _ hab hba => absurd hba (lt_asymm hab))
    m.ascending m'.ascending
  cases m
  cases m'
  cases hentries
  rfl

namespace Counts

/-- The entry of what has been counted `n` times. -/
def entry (n : Nat) : Option Nat := if n = 0 then none else some n

/-- How often tokens have occurred, and how many texts have held them. -/
structure Are (counts : Counts) (occurred held : String → Nat) : Prop where
  occurrences : ∀ t, counts.occurrences.get? t = entry (occurred t)
  holders : ∀ t, counts.holders.get? t = entry (held t)

theorem getD_entry (n : Nat) : (entry n).getD 0 = n := by
  unfold entry
  split
  · next h => exact h.symm
  · rfl

theorem entry_eq_some_iff {n k : Nat} : entry n = some k ↔ 0 < n ∧ k = n := by
  unfold entry
  split
  · next h => simp [h]
  · next h => simp [Nat.pos_of_ne_zero h, eq_comm]

theorem get?_add_one {m : OrderedMap String Nat} {count : String → Nat}
    (h : ∀ t, m.get? t = entry (count t)) (t u : String) :
    (m.update t 0 (· + 1)).get? u = entry (count u + [t].count u) := by
  rw [OrderedMap.get?_update, h t, getD_entry, List.count_singleton]
  by_cases hu : u = t
  · subst hu
    simp [entry]
  · simp [hu, h u, Ne.symm hu]

variable {counts : Counts} {occurred held : String → Nat}

/-- What one token changes: it has occurred once more, and unless it was seen the text holds it. -/
theorem Are.addToken (h : counts.Are occurred held) (seen : List String) (t : String) :
    (Counts.addToken (counts, seen) t).1.Are (fun u => occurred u + [t].count u)
      (fun u => held u + if u = t ∧ u ∉ seen then 1 else 0) ∧
    ∀ u, u ∈ (Counts.addToken (counts, seen) t).2 ↔ u ∈ seen ∨ u = t := by
  rw [Counts.addToken]
  split
  · next hseen =>
    have hseen : t ∈ seen := by simpa using hseen
    refine ⟨⟨get?_add_one h.occurrences t, fun u => ?_⟩, fun u => ?_⟩
    · have hnot : ¬ (u = t ∧ u ∉ seen) := fun hu => hu.2 (hu.1 ▸ hseen)
      rw [if_neg hnot]
      exact h.holders u
    · refine ⟨Or.inl, ?_⟩
      rintro (hu | rfl)
      · exact hu
      · exact hseen
  · next hseen =>
    have hseen : t ∉ seen := by simpa using hseen
    refine ⟨⟨get?_add_one h.occurrences t, fun u => ?_⟩, fun u => by simp⟩
    rw [get?_add_one h.holders, List.count_singleton]
    by_cases hu : u = t
    · subst hu
      simp [hseen]
    · simp [hu, Ne.symm hu]

/-- What the tokens of a text change. -/
theorem Are.foldl_addToken (h : counts.Are occurred held) (seen tokens : List String) :
    (tokens.foldl Counts.addToken (counts, seen)).1.Are (fun u => occurred u + tokens.count u)
      (fun u => held u + if u ∈ tokens ∧ u ∉ seen then 1 else 0) := by
  induction tokens generalizing counts occurred held seen with
  | nil => simpa using h
  | cons t tokens ih =>
    obtain ⟨hcounts, hseen⟩ := h.addToken seen t
    have hrest := ih hcounts (Counts.addToken (counts, seen) t).2
    refine ⟨fun u => ?_, fun u => ?_⟩
    · rw [List.foldl_cons, hrest.occurrences, Nat.add_assoc, ← List.count_append,
        List.singleton_append]
    · -- a token counts for the text when it comes for the first time
      have hheld := hrest.holders u
      simp only [hseen] at hheld
      rw [List.foldl_cons, hheld, Nat.add_assoc]
      by_cases hu : u = t
      · simp [hu]
      · simp [hu]

theorem Are.addText (h : counts.Are occurred held) (tokens : List String) :
    (counts.addText tokens).Are (fun u => occurred u + tokens.count u)
      (fun u => held u + if u ∈ tokens then 1 else 0) := by
  simpa [Counts.addText] using h.foldl_addToken [] tokens

/-- What texts change. -/
theorem Are.foldl_addText (h : counts.Are occurred held) (texts : List (List String)) :
    (texts.foldl Counts.addText counts).Are (fun u => occurred u + texts.flatten.count u)
      (fun u => held u + texts.countP (u ∈ ·)) := by
  induction texts generalizing counts occurred held with
  | nil => simpa using h
  | cons tokens texts ih =>
    have hrest := ih (h.addText tokens)
    refine ⟨fun u => ?_, fun u => ?_⟩
    · rw [List.foldl_cons, hrest.occurrences, List.flatten_cons, List.count_append, Nat.add_assoc]
    · rw [List.foldl_cons, hrest.holders, List.countP_cons, Nat.add_assoc,
        Nat.add_comm (texts.countP _)]
      simp

theorem are_ofTexts (texts : List (List String)) :
    (ofTexts texts).Are (fun t => texts.flatten.count t) (fun t => texts.countP (t ∈ ·)) := by
  have hempty : Are {} (fun _ => 0) (fun _ => 0) := ⟨fun _ => rfl, fun _ => rfl⟩
  simpa [ofTexts] using hempty.foldl_addText texts

theorem mem_occurrences {texts : List (List String)} {x : String × Nat} :
    x ∈ (ofTexts texts).occurrences.entries ↔
      x.1 ∈ texts.flatten ∧ x.2 = texts.flatten.count x.1 := by
  rw [OrderedMap.mem_entries, (are_ofTexts texts).occurrences, entry_eq_some_iff, List.count_pos_iff]

theorem ofTexts_perm {texts texts' : List (List String)} (h : texts.Perm texts') :
    ofTexts texts = ofTexts texts' := by
  have hare := are_ofTexts texts
  have hare' := are_ofTexts texts'
  have hoccurrences : (ofTexts texts).occurrences = (ofTexts texts').occurrences :=
    ext_get? fun t => by rw [hare.occurrences, hare'.occurrences, h.flatten.count_eq]
  have hholders : (ofTexts texts).holders = (ofTexts texts').holders :=
    ext_get? fun t => by rw [hare.holders, hare'.holders, h.countP_eq]
  cases hc : ofTexts texts
  cases hc' : ofTexts texts'
  rw [hc, hc'] at hoccurrences hholders
  cases hoccurrences
  cases hholders
  rfl

/-- There is an entry for each different token. -/
theorem length_occurrences (texts : List (List String)) :
    (ofTexts texts).occurrences.entries.length = texts.flatten.dedup.length := by
  have hperm : ((ofTexts texts).occurrences.entries.map (·.1)).Perm texts.flatten.dedup := by
    rw [List.perm_ext_iff_of_nodup (nodup_keys _) (List.nodup_dedup _)]
    intro t
    simp only [List.mem_map, mem_occurrences, List.mem_dedup]
    constructor
    · rintro ⟨x, ⟨hx, -⟩, rfl⟩
      exact hx
    · intro ht
      exact ⟨(t, texts.flatten.count t), ⟨ht, rfl⟩, rfl⟩
  rw [← hperm.length_eq, List.length_map]

end Counts

namespace Vectorizer

/-! ## Ranking -/

/-- More frequent, or as frequent and earlier in the alphabet. -/
def Outranks (a b : String × Nat) : Prop := b.2 < a.2 ∨ b.2 = a.2 ∧ a.1 < b.1

/-- The entries by their numbers, the greatest first. -/
def ranked (counts : List (String × Nat)) : List (String × Nat) :=
  counts.mergeSort fun a b => b.2 ≤ a.2

theorem topTerms_eq (counts : List (String × Nat)) (size : Nat) :
    topTerms counts size = ((ranked counts).take size).map (·.1) := rfl

theorem ranked_perm (counts : List (String × Nat)) : (ranked counts).Perm counts :=
  List.mergeSort_perm counts _

theorem ranked_pairwise_le (counts : List (String × Nat)) :
    (ranked counts).Pairwise fun a b => b.2 ≤ a.2 := by
  have h := @List.pairwise_mergeSort (String × Nat) (fun a b => decide (b.2 ≤ a.2))
    (fun a b c hab hbc => by simp only [decide_eq_true_eq] at *; omega)
    (fun a b => by simp only [Bool.or_eq_true, decide_eq_true_eq]; omega) counts
  exact h.imp fun hab => of_decide_eq_true hab

/-- Among entries with the same number the order stays. -/
theorem filter_ranked (counts : List (String × Nat)) (n : Nat) :
    (ranked counts).filter (·.2 = n) = counts.filter (·.2 = n) := by
  have hequal : (counts.filter (·.2 = n)).Pairwise fun a b => decide (b.2 ≤ a.2) = true := by
    apply List.pairwise_of_forall_mem_list
    intro a ha b hb
    simp only [List.mem_filter, decide_eq_true_eq] at ha hb ⊢
    omega
  have hsublist : (counts.filter (·.2 = n)).Sublist (ranked counts) :=
    List.sublist_mergeSort (fun a b c hab hbc => by simp only [decide_eq_true_eq] at *; omega)
      (fun a b => by simp only [Bool.or_eq_true, decide_eq_true_eq]; omega) hequal
      List.filter_sublist
  have hfilter := hsublist.filter (·.2 = n)
  rw [List.filter_filter] at hfilter
  simp only [Bool.and_self] at hfilter
  refine (hfilter.eq_of_length ?_).symm
  exact ((ranked_perm counts).filter _).length_eq.symm

theorem ranked_pairwise {counts : List (String × Nat)}
    (h : counts.Pairwise fun a b => a.1 < b.1) : (ranked counts).Pairwise Outranks := by
  rw [List.pairwise_iff_forall_sublist]
  intro a b hab
  have hle : b.2 ≤ a.2 := List.pairwise_iff_forall_sublist.mp (ranked_pairwise_le counts) hab
  by_cases hlt : b.2 < a.2
  · exact Or.inl hlt
  · have heq : b.2 = a.2 := by omega
    -- among the entries with this number the two stand as they stood in the alphabet
    have hsame : [a, b].Sublist (counts.filter (·.2 = a.2)) := by
      have hfilter := hab.filter (·.2 = a.2)
      rw [filter_ranked] at hfilter
      simpa [heq] using hfilter
    exact Or.inr ⟨heq, List.pairwise_iff_forall_sublist.mp h (hsame.trans List.filter_sublist)⟩

/-- What is kept outranks what is cut off. -/
theorem outranks_of_mem_take {counts : List (String × Nat)}
    (h : counts.Pairwise fun a b => a.1 < b.1) {size : Nat} {x y : String × Nat}
    (hx : x ∈ (ranked counts).take size) (hy : y ∈ counts) (hcut : y ∉ (ranked counts).take size) :
    Outranks x y := by
  have hpairwise := ranked_pairwise h
  rw [← List.take_append_drop size (ranked counts), List.pairwise_append] at hpairwise
  refine hpairwise.2.2 x hx y ?_
  have hmem := (ranked_perm counts).mem_iff.mpr hy
  rw [← List.take_append_drop size (ranked counts), List.mem_append] at hmem
  exact hmem.resolve_left hcut

/-! ## Terms -/

/-- The tokens of all texts. -/
def allTokens (documents : List String) : List String := documents.flatMap tokenize

/-- The number of texts that hold a token. -/
def holders (documents : List String) (t : String) : Nat :=
  documents.countP fun d => t ∈ tokenize d

/-- The most frequent tokens of texts, at most `size` of them, in alphabetical order. -/
structure MostFrequent (documents : List String) (size : Nat) (terms : List String) : Prop where
  increasing : terms.Pairwise (· < ·)
  length_eq : terms.length = min size (allTokens documents).dedup.length
  mem : ∀ t ∈ terms, t ∈ allTokens documents
  top : ∀ t ∈ terms, ∀ u ∈ allTokens documents, u ∉ terms →
    (allTokens documents).count u < (allTokens documents).count t ∨
      (allTokens documents).count u = (allTokens documents).count t ∧ t < u

/-- How often each token of texts occurs. -/
def occurrencesOf (documents : List String) : List (String × Nat) :=
  (Counts.ofTexts (documents.map tokenize)).occurrences.entries

theorem mem_occurrencesOf {documents : List String} {x : String × Nat} : x ∈ occurrencesOf documents ↔
    x.1 ∈ allTokens documents ∧ x.2 = (allTokens documents).count x.1 :=
  Counts.mem_occurrences

theorem fit_terms_perm (documents : List String) (size : Nat) :
    (fit documents size).terms.Perm (topTerms (occurrencesOf documents) size) :=
  sortStrings_perm _

theorem mem_topTerms {documents : List String} {size : Nat} {t : String} :
    t ∈ topTerms (occurrencesOf documents) size ↔
      (t, (allTokens documents).count t) ∈ (ranked (occurrencesOf documents)).take size := by
  rw [topTerms_eq, List.mem_map]
  constructor
  · rintro ⟨x, hx, rfl⟩
    have hmem := (ranked_perm _).mem_iff.mp (List.mem_of_mem_take hx)
    rwa [← (mem_occurrencesOf.mp hmem).2]
  · intro h
    exact ⟨_, h, rfl⟩

theorem fit_terms_mostFrequent (documents : List String) (size : Nat) :
    MostFrequent documents size (fit documents size).terms where
  increasing := fit_terms_pairwise documents size
  length_eq := by
    rw [(fit_terms_perm documents size).length_eq, topTerms_eq, List.length_map, List.length_take,
      (ranked_perm _).length_eq, occurrencesOf, Counts.length_occurrences]
    rfl
  mem := by
    intro t ht
    rw [(fit_terms_perm documents size).mem_iff, mem_topTerms] at ht
    exact (mem_occurrencesOf.mp ((ranked_perm _).mem_iff.mp (List.mem_of_mem_take ht))).1
  top := by
    intro t ht u hu hnot
    rw [(fit_terms_perm documents size).mem_iff, mem_topTerms] at ht hnot
    exact outranks_of_mem_take (OrderedMap.ascending _) ht (mem_occurrencesOf.mpr ⟨hu, rfl⟩) hnot

/-! ## Weights -/

theorem fit_idf (documents : List String) (size : Nat) :
    (fit documents size).idf
      = (fit documents size).terms.map fun t => weight documents.length (holders documents t) := by
  rw [fit]
  refine List.map_congr_left fun t _ => ?_
  rw [(Counts.are_ofTexts _).holders, Counts.getD_entry, List.countP_map]
  rfl

/-! ## Main result -/

theorem fit_perm {documents documents' : List String} (h : documents.Perm documents') (size : Nat) :
    fit documents size = fit documents' size := by
  rw [fit, fit, Counts.ofTexts_perm (h.map tokenize), h.length_eq]

theorem zip_fit (documents : List String) (size : Nat) :
    (fit documents size).terms.zip (fit documents size).idf
      = (fit documents size).terms.map fun t =>
        (t, weight documents.length (holders documents t)) := by
  rw [fit_idf, List.map_prod_left_eq_zip]

theorem fit_terms_sublist {small large : Nat} (h : small ≤ large) (documents : List String) :
    (fit documents small).terms.Sublist (fit documents large).terms := by
  have hsmall := fit_terms_pairwise documents small
  have hsubset : (fit documents small).terms ⊆ (fit documents large).terms := by
    intro t ht
    rw [(fit_terms_perm documents _).mem_iff, mem_topTerms] at ht ⊢
    exact (List.take_sublist_take_left h).subset ht
  have hsubperm := List.subperm_of_subset (hsmall.imp fun hab => ne_of_lt hab) hsubset
  exact List.sublist_of_subperm_of_pairwise hsubperm hsmall (fit_terms_pairwise documents large)

/-- The vocabulary of any texts consists of the most frequent tokens, as many as are asked for and
there are. The weight of a term is found from the number of the texts and of those that hold it. So
the vectorizer has no flaw, does not depend on the order of the texts, and with a smaller size has
some of the same terms with the same weights. -/
theorem fit_mostFrequent (documents : List String) (size : Nat) :
    MostFrequent documents size (fit documents size).terms ∧
    (fit documents size).idf
      = (fit documents size).terms.map (fun t => weight documents.length (holders documents t)) ∧
    (fit documents size).flaw? = none ∧
    (∀ documents', documents'.Perm documents → fit documents' size = fit documents size) ∧
    ∀ smaller ≤ size, ((fit documents smaller).terms.zip (fit documents smaller).idf).Sublist
      ((fit documents size).terms.zip (fit documents size).idf) := by
  refine ⟨fit_terms_mostFrequent documents size, fit_idf documents size,
    (flaw?_eq_none_iff _).mpr (fit_sound documents size), fun documents' h => fit_perm h size, ?_⟩
  intro smaller hle
  rw [zip_fit, zip_fit]
  exact (fit_terms_sublist hle documents).map _

/-- A tie at the cut, a repeated token and an empty text. -/
theorem fit_mostFrequent_tie :
    (fit ["zeta beta", "", "Alpha beta"] 2).terms = ["alpha", "beta"] ∧
    fit ["Alpha beta", "zeta beta", ""] 2 = fit ["zeta beta", "", "Alpha beta"] 2 ∧
    ((fit ["zeta beta", "", "Alpha beta"] 1).terms.zip
      (fit ["zeta beta", "", "Alpha beta"] 1).idf).Sublist
        ((fit ["zeta beta", "", "Alpha beta"] 2).terms.zip
          (fit ["zeta beta", "", "Alpha beta"] 2).idf) := by
  have htokens : ["zeta beta", "", "Alpha beta"].map tokenize
      = [["zeta", "beta"], [], ["alpha", "beta"]] := by decide +kernel
  obtain ⟨-, -, -, hperm, hsmaller⟩ := fit_mostFrequent ["zeta beta", "", "Alpha beta"] 2
  refine ⟨?_, hperm _ (by decide), hsmaller 1 (by decide)⟩
  simp only [fit, htokens]
  cbv

end Vectorizer

end DefectScan.Learning
