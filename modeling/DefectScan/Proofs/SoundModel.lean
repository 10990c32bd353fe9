import DefectScan.Learning.Model
import Mathlib.Data.String.Basic

/-!
# Sound models

The check of a model finds no flaw exactly in a sound model: one of this format and of all
categories, with a unit for each of them, a strictly sorted vocabulary, and as many weights and idf
values as terms.

    flaw? m = none ↔ Sound m
-/

namespace DefectScan.Learning

namespace Vectorizer

structure Sound (v : Vectorizer) : Prop where
  idf_length : v.terms.length = v.idf.length
  increasing : v.terms.Pairwise (· < ·)

theorem isIncreasing_iff (terms : List String) :
    isIncreasing terms = true ↔ terms.Pairwise (· < ·) := by
  rw [← List.isChain_iff_pairwise]
  induction terms with
  | nil => simp [isIncreasing]
  | cons a rest ih =>
    cases rest with
    | nil => simp [isIncreasing]
    | cons b rest =>
      rw [isIncreasing, Bool.and_eq_true, decide_eq_true_eq, ih, List.isChain_cons_cons]

theorem flaw?_eq_none_iff (v : Vectorizer) : v.flaw? = none ↔ v.Sound := by
  unfold flaw?
  by_cases hlength : v.terms.length = v.idf.length
  · rw [if_neg (not_not.mpr hlength)]
    by_cases hsorted : isIncreasing v.terms = true
    · rw [if_neg (by simpa using hsorted)]
      exact iff_of_true rfl ⟨hlength, (isIncreasing_iff _).mp hsorted⟩
    · rw [if_pos (by simpa using hsorted)]
      refine iff_of_false (Option.some_ne_none _) fun h => ?_
      exact hsorted ((isIncreasing_iff _).mpr h.increasing)
  · rw [if_pos hlength]
    exact iff_of_false (Option.some_ne_none _) fun h => hlength h.idf_length

end Vectorizer

namespace Model

structure Sound (m : Model) : Prop where
  version_eq : m.formatVersion = Learning.formatVersion
  labels_eq : m.labels = Category.all
  units_length : m.units.length = m.labels.length
  vectorizer : m.vectorizer.Sound
  weights_length : ∀ u ∈ m.units, u.weights.length = m.vectorizer.size

theorem flaw?_eq_none_iff (m : Model) : m.flaw? = none ↔ m.Sound := by
  unfold flaw?
  by_cases hversion : m.formatVersion = Learning.formatVersion
  · rw [if_neg (not_not.mpr hversion)]
    by_cases hlabels : m.labels = Category.all
    · rw [if_neg (not_not.mpr hlabels)]
      by_cases hunits : m.units.length = m.labels.length
      · rw [if_neg (not_not.mpr hunits)]
        cases hflaw : m.vectorizer.flaw? with
        | some f =>
          refine iff_of_false (Option.some_ne_none _) fun h => ?_
          rw [(Vectorizer.flaw?_eq_none_iff _).mpr h.vectorizer] at hflaw
          exact Option.some_ne_none f hflaw.symm
        | none =>
          have hsound := (Vectorizer.flaw?_eq_none_iff _).mp hflaw
          have hweights : (∀ u ∈ m.units, u.weights.length = m.vectorizer.size) ↔ m.Sound :=
            ⟨fun h => ⟨hversion, hlabels, hunits, hsound, h⟩, fun h => h.weights_length⟩
          simpa [List.find?_eq_none] using hweights
      · rw [if_pos hunits]
        exact iff_of_false (Option.some_ne_none _) fun h => hunits h.units_length
    · rw [if_pos hlabels]
      exact iff_of_false (Option.some_ne_none _) fun h => hlabels h.labels_eq
  · rw [if_pos hversion]
    exact iff_of_false (Option.some_ne_none _) fun h => hversion h.version_eq

end Model

end DefectScan.Learning
