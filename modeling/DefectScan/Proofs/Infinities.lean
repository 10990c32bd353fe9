import DefectScan.Proofs.Binary64

/-!
# Comparisons and numbers that are not finite

What is compared is a number (`isNaN_of_le`), and what lies between two finite numbers is finite
(`isFinite_of_between`). A number that is not finite stays so under all that is done to it in a
descent: products, quotients by anything, and differences on either side.
-/

namespace DefectScan.Binary64

open Float.Model

/-! ## Comparisons -/

theorem le_iff_unpack {x y : Float} : x ≤ y ↔ x.toModel.unpack.le y.toModel.unpack = true := by
  show decide (x.toModel.unpack.le y.toModel.unpack = true) = true ↔ _
  rw [decide_eq_true_eq]

theorem isNaN_of_le {x y : Float} (h : x ≤ y) : x.isNaN = false ∧ y.isNaN = false := by
  rw [le_iff_unpack] at h
  show x.toModel.unpack.isNaN = false ∧ y.toModel.unpack.isNaN = false
  generalize x.toModel.unpack = u at *
  generalize y.toModel.unpack = v at *
  cases u with
  | notANumber => cases h
  | infinity s =>
    cases v with
    | notANumber => cases s <;> cases h
    | _ => exact ⟨rfl, rfl⟩
  | zero s =>
    cases v with
    | notANumber => cases h
    | _ => exact ⟨rfl, rfl⟩
  | finite s m e hm =>
    cases v with
    | notANumber => cases s <;> cases h
    | _ => exact ⟨rfl, rfl⟩

theorem isFinite_of_between {x a b : Float} (ha : a.isFinite = true) (hb : b.isFinite = true)
    (hax : a ≤ x) (hxb : x ≤ b) : x.isFinite = true := by
  rw [le_iff_unpack] at hax hxb
  change a.toModel.unpack.isFinite = true at ha
  change b.toModel.unpack.isFinite = true at hb
  show x.toModel.unpack.isFinite = true
  generalize a.toModel.unpack = u at *
  generalize b.toModel.unpack = v at *
  generalize x.toModel.unpack = w at *
  cases w with
  | finite s m e h => rfl
  | zero s => rfl
  | notANumber =>
    cases u with
    | infinity s => cases ha
    | notANumber => cases ha
    | zero s => cases hax
    | finite s m e h => cases s <;> cases hax
  | infinity s =>
    cases s with
    | positive =>
      cases v with
      | infinity s => cases hb
      | notANumber => cases hb
      | zero s => cases hxb
      | finite s m e h => cases hxb
    | negative =>
      cases u with
      | infinity s => cases ha
      | notANumber => cases ha
      | zero s => cases hax
      | finite s m e h => cases s <;> cases hax

/-! ## Arithmetic -/

theorem eq_of_isFinite_eq_false {u : UnpackedFloat} (h : u.isFinite = false) :
    u = .notANumber ∨ ∃ s, u = .infinity s := by
  cases u with
  | zero s => cases h
  | finite s m e hm => cases h
  | notANumber => exact Or.inl rfl
  | infinity s => exact Or.inr ⟨s, rfl⟩

theorem isFinite_pack {u : UnpackedFloat} (h : u.isFinite = false) :
    (Float.ofModel (.pack u)).isFinite = false := by
  rcases eq_of_isFinite_eq_false h with rfl | ⟨s, rfl⟩
  · rfl
  · cases s <;> rfl

theorem mul_isFinite_left {x : Float} (h : x.isFinite = false) (y : Float) :
    (x * y).isFinite = false := by
  apply isFinite_pack
  show (UnpackedFloat.mul Format.binary64 x.toModel.unpack y.toModel.unpack).isFinite = false
  rcases eq_of_isFinite_eq_false h with hx | ⟨s, hx⟩ <;> rw [hx]
  · rfl
  · cases y.toModel.unpack <;> rfl

theorem div_isFinite_left {x : Float} (h : x.isFinite = false) (y : Float) :
    (x / y).isFinite = false := by
  apply isFinite_pack
  show (UnpackedFloat.div Format.binary64 x.toModel.unpack y.toModel.unpack).isFinite = false
  rcases eq_of_isFinite_eq_false h with hx | ⟨s, hx⟩ <;> rw [hx]
  · rfl
  · cases y.toModel.unpack <;> rfl

theorem sub_isFinite_right (x : Float) {y : Float} (h : y.isFinite = false) :
    (x - y).isFinite = false := by
  apply isFinite_pack
  show (UnpackedFloat.sub Format.binary64 x.toModel.unpack y.toModel.unpack).isFinite = false
  rcases eq_of_isFinite_eq_false h with hy | ⟨s, hy⟩ <;> rw [hy]
  · cases x.toModel.unpack <;> rfl
  · cases x.toModel.unpack with
    | infinity t =>
      -- equal infinities cancel to what is no number
      simp only [UnpackedFloat.sub]
      split <;> rfl
    | notANumber => rfl
    | zero t => rfl
    | finite t m e hm => rfl

end DefectScan.Binary64
