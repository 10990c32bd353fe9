import DefectScan.Codec.Model
import DefectScan.Proofs.SoundModel

/-!
# Fitted models are sound

A model that was fitted passes the check that one from elsewhere has to pass: its vocabulary is
strictly sorted (`fit_terms_pairwise`), and whatever the corpus is, all its lists have the lengths
that belong together. A step of the descent keeps the number of weights (`length_weights_epoch`),
and a text always becomes as many numbers as there are terms (`length_transform`). So a sound model
judges a text by all of its units and all of their weights:

    Sound m → (m.probabilities text).map (·.1) = Category.all
-/

namespace DefectScan.Learning

/-! ## The vocabulary -/

theorem sortStrings_perm (ss : List String) : (sortStrings ss).Perm ss := List.mergeSort_perm ss _

theorem sortStrings_pairwise (ss : List String) : (sortStrings ss).Pairwise (· ≤ ·) := by
  have h := @List.pairwise_mergeSort String (fun a b => decide (a ≤ b))
    (fun a b c hab hbc => by
      rw [decide_eq_true_eq] at *
      exact le_trans hab hbc)
    (fun a b => by
      rw [Bool.or_eq_true, decide_eq_true_eq, decide_eq_true_eq]
      exact le_total a b) ss
  exact h.imp fun hab => of_decide_eq_true hab

theorem nodup_keys {ν : Type} (m : OrderedMap String ν) : (m.entries.map (·.1)).Nodup := by
  rw [List.Nodup, List.pairwise_map]
  exact m.ascending.imp fun hab => ne_of_lt hab

namespace Vectorizer

theorem nodup_topTerms {counts : List (String × Nat)} (h : (counts.map (·.1)).Nodup) (size : Nat) :
    (topTerms counts size).Nodup := by
  have hsorted : ((counts.mergeSort fun a b => b.2 ≤ a.2).map (·.1)).Nodup :=
    ((List.mergeSort_perm counts _).map (·.1)).nodup_iff.mpr h
  refine List.Nodup.sublist ?_ hsorted
  exact (List.take_sublist size (counts.mergeSort fun a b => b.2 ≤ a.2)).map (·.1)

theorem fit_terms_pairwise (documents : List String) (size : Nat) :
    (fit documents size).terms.Pairwise (· < ·) := by
  have hnodup := (sortStrings_perm _).nodup_iff.mpr
    (nodup_topTerms (nodup_keys (Counts.ofTexts (documents.map tokenize)).occurrences) size)
  exact ((sortStrings_pairwise _).and hnodup).imp fun hab => lt_of_le_of_ne hab.1 hab.2

theorem fit_sound (documents : List String) (size : Nat) : (fit documents size).Sound where
  idf_length := by
    simp only [fit, List.length_map]
  increasing := fit_terms_pairwise documents size

/-! ## Texts as numbers -/

theorem size_countTokens (terms : Array String) (counts : Array Float) (tokens : List String) :
    (countTokens terms counts tokens).size = counts.size := by
  induction tokens generalizing counts with
  | nil => rfl
  | cons t ts ih =>
    rw [countTokens]
    split
    · rw [ih, Array.size_modify]
    · exact ih counts

theorem length_weigh (counts weights : List Float) :
    (weigh counts weights).length = counts.length := by
  induction counts generalizing weights with
  | nil => cases weights <;> rfl
  | cons c cs ih =>
    cases weights with
    | nil => rfl
    | cons w ws => rw [weigh, List.length_cons, ih, List.length_cons]

theorem length_normalise (v : List Float) : (normalise v).length = v.length := by
  simp only [normalise]
  split
  · exact List.length_map _
  · rfl

theorem length_transform (v : Vectorizer) (text : String) : (v.transform text).length = v.size := by
  simp only [transform, length_normalise, length_weigh, Array.length_toList, size_countTokens,
    Array.size_replicate, List.size_toArray]
  rfl

end Vectorizer

/-! ## Units -/

namespace LogisticUnit

theorem length_descend (rate penalty n : Float) (ws gs : List Float) :
    (descend rate penalty n ws gs).length = ws.length := by
  induction ws generalizing gs with
  | nil => cases gs <;> rfl
  | cons w ws ih =>
    cases gs with
    | nil => rfl
    | cons g gs => rw [descend, List.length_cons, ih, List.length_cons]

theorem length_weights_epoch (params : TrainingParams) (features : List (List Float))
    (targets : List Bool) (u : LogisticUnit) :
    (epoch params features targets u).weights.length = u.weights.length :=
  length_descend _ _ _ _ _

theorem length_weights_run (params : TrainingParams) (features : List (List Float))
    (targets : List Bool) (n : Nat) (u : LogisticUnit) :
    (run params features targets n u).weights.length = u.weights.length := by
  induction n generalizing u with
  | zero => rfl
  | succ n ih => rw [run, ih, length_weights_epoch]

theorem length_weights_fit (row : List Float) (rows : List (List Float)) (targets : List Bool)
    (params : TrainingParams) : (fit (row :: rows) targets params).weights.length = row.length := by
  rw [fit, length_weights_run, List.length_map]

end LogisticUnit

/-! ## Models -/

namespace Model

theorem fit_sound {examples : List Example} {s : ClassifierSettings} {now : Timestamp} {m : Model}
    (h : fit examples s now = .ok m) : m.Sound := by
  unfold fit at h
  split at h
  · cases h
  · next hinput =>
    cases examples with
    | nil => simp [inputFlaw?] at hinput
    | cons first rest =>
      cases h
      refine ⟨rfl, rfl, List.length_map _, Vectorizer.fit_sound _ _, ?_⟩
      intro u hu
      obtain ⟨c, -, rfl⟩ := List.mem_map.mp hu
      simp only [List.map_cons, LogisticUnit.length_weights_fit, Vectorizer.length_transform]

theorem ofBytes_sound {bytes : ByteArray} {m : Model} (h : ofBytes bytes = .ok m) : m.Sound := by
  unfold ofBytes at h
  split at h
  · unfold ofText at h
    split at h
    · cases h
    · split at h
      · cases h
      · next hflaw =>
        cases h
        exact (flaw?_eq_none_iff _).mp hflaw
  · cases h

/-- Every category has its unit, and every unit has a weight for each number of a text. -/
theorem Sound.probabilities_eq {m : Model} (h : m.Sound) (text : String) :
    (m.probabilities text).map (·.1) = Category.all ∧
      (m.probabilities text).map (·.2)
        = m.units.map (·.probability (m.vectorizer.transform text)) := by
  have hlength := h.units_length
  have hlabels := h.labels_eq
  simp only [probabilities, List.map_map, Function.comp_def]
  constructor
  · rw [← hlabels]
    exact List.map_fst_zip hlength.ge
  · have hunits : (m.labels.zip m.units).map Prod.snd = m.units := List.map_snd_zip hlength.le
    conv_rhs => rw [← hunits, List.map_map]
    rfl

theorem Sound.length_transform {m : Model} (h : m.Sound) (text : String) :
    (m.vectorizer.transform text).length = m.vectorizer.idf.length ∧
      ∀ u ∈ m.units, u.weights.length = (m.vectorizer.transform text).length := by
  rw [Vectorizer.length_transform]
  exact ⟨h.vectorizer.idf_length, h.weights_length⟩

theorem Sound.positive_sublist {m : Model} (h : m.Sound) (text : String) :
    ((m.positive text).map (·.1)).Sublist Category.all := by
  rw [← (h.probabilities_eq text).1]
  exact List.filter_sublist.map _

end Model

end DefectScan.Learning
