import DefectScan.Proofs.Binary64
import Mathlib.Algebra.Order.Field.Power
import Mathlib.Algebra.Order.Ring.Rat
import Mathlib.Data.Nat.Log
import Mathlib.Tactic.FieldSimp
import Mathlib.Tactic.Linarith
import Mathlib.Tactic.Positivity
import Mathlib.Tactic.Ring

/-!
# Rounding to the nearest number

A magnitude is rounded by cutting it off at a power of two, with two more bits that say where the
rest lies. Here the magnitude is any rational `v`, and the result is known beforehand: if `v` lies in
the interval of `mantissa * 2 ^ exponent`, which is said without a word of the algorithm, then

    roundWithAccuracy sign q e accuracy = finite sign mantissa exponent

(`roundWithAccuracy_of_rounds`). Products and quotients of numbers follow. The one case apart is a
power of two approached from below: it is rounded up on the finer grid below it, and one more shift
brings it back.
-/

namespace DefectScan.Binary64

open Float.Model Float.Model.UnpackedFloat

/-! ## The bits behind the cut -/

/-- An extended mantissa tells the floor of a number, on which side of the middle the number lies,
and whether it is one of these two points. -/
structure Near (em : ExtendedMantissa) (w : ℚ) : Prop where
  floor_le : em.mantissa ≤ w
  lt_succ : w < em.mantissa + 1
  round : em.roundBit = true ↔ em.mantissa + 1 / 2 ≤ w
  sticky : em.stickyBit = false ↔ w = em.mantissa ∨ w = em.mantissa + 1 / 2

/-- Both bits are clear exactly if nothing was cut off. -/
theorem Near.clear_iff {em : ExtendedMantissa} {w : ℚ} (h : Near em w) :
    (em.roundBit || em.stickyBit) = false ↔ w = em.mantissa := by
  rw [Bool.or_eq_false_iff, h.sticky, Bool.eq_false_iff, Ne, h.round]
  constructor
  · rintro ⟨hround, hexact | hhalf⟩
    · exact hexact
    · exact absurd hhalf.ge hround
  · intro hexact
    refine ⟨?_, Or.inl hexact⟩
    rw [hexact]
    linarith

theorem Near.shiftRightOne {em : ExtendedMantissa} {w : ℚ} (h : Near em w) :
    Near em.shiftRightOne (w / 2) := by
  have hclear := h.clear_iff
  have hle := h.floor_le
  have hlt := h.lt_succ
  -- the bit that goes out becomes the round bit, and what was round or sticky is sticky
  rcases Nat.even_or_odd' em.mantissa with ⟨k, hk | hk⟩
  · have hshift : em.shiftRightOne = ⟨k, false, em.roundBit || em.stickyBit⟩ := by
      simp [ExtendedMantissa.shiftRightOne, hk]
    rw [hk] at hclear hle hlt
    push_cast at hclear hle hlt
    rw [hshift]
    refine ⟨?_, ?_, ?_, ?_⟩
    · linarith
    · linarith
    · simp only [Bool.false_eq_true, false_iff, not_le]
      linarith
    · rw [hclear]
      constructor
      · intro hw
        exact Or.inl (by linarith)
      · rintro (hw | hw) <;> linarith
  · have hshift : em.shiftRightOne = ⟨k, true, em.roundBit || em.stickyBit⟩ := by
      have hdiv : (2 * k + 1) / 2 = k := by omega
      have hmod : (2 * k + 1) % 2 = 1 := by omega
      simp [ExtendedMantissa.shiftRightOne, hk, hdiv, hmod]
    rw [hk] at hclear hle hlt
    push_cast at hclear hle hlt
    rw [hshift]
    refine ⟨?_, ?_, ?_, ?_⟩
    · linarith
    · linarith
    · simp only [true_iff]
      linarith
    · rw [hclear]
      constructor
      · intro hw
        exact Or.inr (by linarith)
      · rintro (hw | hw) <;> linarith

theorem Near.shiftRight {em : ExtendedMantissa} {w : ℚ} (h : Near em w) (n : ℕ) :
    Near (em >>> n) (w / 2 ^ n) := by
  induction n with
  | zero =>
    rw [pow_zero, div_one]
    exact h
  | succ n ih =>
    rw [pow_succ, ← div_div]
    exact ih.shiftRightOne

/-- The mantissa to which a number is rounded: the nearest, and of two the even one. -/
structure RoundsTo (m : ℕ) (w : ℚ) : Prop where
  low : 2 * (m : ℚ) - 1 ≤ 2 * w
  high : 2 * w ≤ 2 * m + 1
  even : 2 * w = 2 * m - 1 ∨ 2 * w = 2 * m + 1 → m % 2 = 0

theorem Near.roundedMantissa_eq {em : ExtendedMantissa} {w : ℚ} {m : ℕ} (h : Near em w)
    (hm : RoundsTo m w) : em.roundedMantissa = m := by
  obtain ⟨f, r, s⟩ := em
  obtain ⟨hle, hlt, hround, hsticky⟩ := h
  obtain ⟨hlow, hhigh, heven⟩ := hm
  simp only at hle hlt hround hsticky
  have hfloor : f = m ∨ f + 1 = m := by
    have hup : (f : ℚ) < m + 1 := by linarith
    have hdown : (m : ℚ) < f + 2 := by linarith
    norm_cast at hup hdown
    omega
  have hcast : (m : ℚ) = f ∨ (m : ℚ) = f + 1 := by
    rcases hfloor with rfl | rfl
    · exact Or.inl rfl
    · exact Or.inr (by push_cast; rfl)
  cases r with
  | false =>
    -- below the middle the floor is nearest, so it is `m`
    have hbelow : w < f + 1 / 2 := not_le.mp fun hw => Bool.false_ne_true (hround.mpr hw)
    have hf : f = m := by
      rcases hcast with hcast | hcast
      · exact_mod_cast hcast.symm
      · linarith
    rw [hf]
    cases s <;> rfl
  | true =>
    have habove := hround.mp rfl
    cases s with
    | true =>
      have hne : ¬ (w = f ∨ w = f + 1 / 2) := fun hw => Bool.false_ne_true (hsticky.mpr hw).symm
      have hstrict : (f : ℚ) + 1 / 2 < w :=
        lt_of_le_of_ne habove fun hw => hne (Or.inr hw.symm)
      have hf : f + 1 = m := by
        rcases hcast with hcast | hcast
        · linarith
        · exact_mod_cast hcast.symm
      exact hf
    | false =>
      have hhalf : w = f + 1 / 2 := by
        rcases hsticky.mp rfl with hw | hw
        · linarith
        · exact hw
      have hmod : m % 2 = 0 := by
        rcases hcast with hcast | hcast
        · exact heven (Or.inr (by linarith))
        · exact heven (Or.inl (by linarith))
      change f + f % 2 = m
      omega

/-! ## The grid -/

theorem two_zpow_pos (e : ℤ) : (0 : ℚ) < 2 ^ e := zpow_pos (by norm_num) e

/-- The exponent at which a magnitude is cut off. -/
def gridExponent (q : ℕ) (e : ℤ) : ℤ := max (q.log2 + e - 52) (-1074)

theorem targetExponent_totalExponent (q : ℕ) (e : ℤ) :
    Format.binary64.targetExponent (totalExponent q e) = gridExponent q e := by
  change max ((q.log2 : ℤ) + 1 + e - 53) (-1074) = max ((q.log2 : ℤ) + e - 52) (-1074)
  congr 1
  omega

theorem shiftToTargetExponent_eq {q : ℕ} {e : ℤ} (acc : Accuracy) (h : e ≤ gridExponent q e) :
    shiftToTargetExponent Format.binary64 q e acc
      = (ExtendedMantissa.ofMantissaAndAccuracy q acc >>> (gridExponent q e - e).toNat,
        gridExponent q e) := by
  unfold shiftToTargetExponent shiftToExponent
  rw [targetExponent_totalExponent]
  refine Prod.ext rfl ?_
  change e + ((gridExponent q e - e).toNat : ℤ) = gridExponent q e
  omega

theorem le_gridExponent {q : ℕ} {e : ℤ} (h : 2 ^ 52 ≤ q ∨ e ≤ -1074) : e ≤ gridExponent q e := by
  unfold gridExponent
  rcases h with h | h
  · have hlog : 52 ≤ q.log2 := (Nat.le_log2 (by omega)).mpr h
    omega
  · omega

theorem Near.shiftToGrid {em : ExtendedMantissa} {v : ℚ} {e t : ℤ} (h : Near em (v / 2 ^ e))
    (ht : e ≤ t) : Near (em >>> (t - e).toNat) (v / 2 ^ t) := by
  have hpow : (2 : ℚ) ^ t = 2 ^ e * 2 ^ (t - e).toNat := by
    rw [← zpow_natCast, ← zpow_add₀ two_ne_zero]
    congr 1
    omega
  rw [hpow, ← div_div]
  exact h.shiftRight _

theorem mantissa_ofMantissaAndAccuracy (q : ℕ) (acc : Accuracy) :
    (ExtendedMantissa.ofMantissaAndAccuracy q acc).mantissa = q := by
  cases acc with
  | exact => rfl
  | inexact o => cases o <;> rfl

/-- Where the magnitude lies among the powers of two. -/
theorem Near.between_powers {q : ℕ} {acc : Accuracy} {v : ℚ} {e : ℤ}
    (h : Near (.ofMantissaAndAccuracy q acc) (v / 2 ^ e)) (hq : q ≠ 0) :
    2 ^ (q.log2 + e) ≤ v ∧ v < 2 ^ (q.log2 + e + 1) := by
  have hle := h.floor_le
  have hlt := h.lt_succ
  rw [mantissa_ofMantissaAndAccuracy] at hle hlt
  have hpos := two_zpow_pos e
  have hlow : ((2 ^ q.log2 : ℕ) : ℚ) ≤ q := by exact_mod_cast Nat.log2_self_le hq
  have hhigh : (q : ℚ) + 1 ≤ (2 ^ (q.log2 + 1) : ℕ) := by exact_mod_cast Nat.lt_log2_self
  push_cast at hlow hhigh
  constructor
  · rw [zpow_add₀ two_ne_zero, zpow_natCast, ← le_div_iff₀ hpos]
    exact hlow.trans hle
  · rw [add_right_comm, zpow_add₀ two_ne_zero, ← div_lt_iff₀ hpos]
    exact_mod_cast hlt.trans_le hhigh

/-! ## The interval of a number -/

/-- Four times the lower end of the interval, on the grid of the number. The number before a power of
two is only half as far away. -/
def lowEnd (m : ℕ) (e : ℤ) : ℚ := if m = 2 ^ 52 ∧ -1074 < e then 4 * m - 1 else 4 * m - 2

/-- The numbers that are rounded to `m * 2 ^ e`. -/
structure Rounds (m : ℕ) (e : ℤ) (v : ℚ) : Prop where
  low : lowEnd m e ≤ 4 * (v / 2 ^ e)
  high : 4 * (v / 2 ^ e) ≤ 4 * m + 2
  even : 4 * (v / 2 ^ e) = lowEnd m e ∨ 4 * (v / 2 ^ e) = 4 * m + 2 → m % 2 = 0

theorem le_lowEnd (m : ℕ) (e : ℤ) : 4 * (m : ℚ) - 2 ≤ lowEnd m e := by
  unfold lowEnd
  split <;> linarith

theorem Rounds.roundsTo {m : ℕ} {e : ℤ} {v : ℚ} (h : Rounds m e v)
    (hcase : (m : ℚ) ≤ v / 2 ^ e ∨ lowEnd m e = 4 * m - 2) : RoundsTo m (v / 2 ^ e) := by
  have hlow := h.low
  have hhigh := h.high
  have hend := le_lowEnd m e
  refine ⟨by linarith, by linarith, ?_⟩
  rintro (heq | heq)
  · rcases hcase with hcase | hcase
    · linarith
    · exact h.even (Or.inl (by linarith))
  · exact h.even (Or.inr (by linarith))

theorem lt_of_two_zpow_lt {a b : ℤ} (h : (2 : ℚ) ^ a < 2 ^ b) : a < b :=
  (zpow_lt_zpow_iff_right₀ one_lt_two).mp h

/-- `t` is the exponent at which `v` is cut off. -/
def CutAt (v : ℚ) (t : ℤ) : Prop :=
  (∃ k : ℤ, 2 ^ k ≤ v ∧ v < 2 ^ (k + 1) ∧ t = max (k - 52) (-1074)) ∨
    (v < 2 ^ (-1074 : ℤ) ∧ t = -1074)

theorem CutAt.eq_of_between {v : ℚ} {t n : ℤ} (ht : CutAt v t) (hn : -1074 ≤ n)
    (hlow : 2 ^ (n + 52) ≤ v) (hhigh : v < 2 ^ (n + 53)) : t = n := by
  rcases ht with ⟨k, hk, hk', rfl⟩ | ⟨hsmall, rfl⟩
  · have h₁ := lt_of_two_zpow_lt (hlow.trans_lt hk')
    have h₂ := lt_of_two_zpow_lt (hk.trans_lt hhigh)
    omega
  · have h₁ := lt_of_two_zpow_lt (hlow.trans_lt hsmall)
    omega

theorem CutAt.eq_lowest {v : ℚ} {t : ℤ} (ht : CutAt v t) (hhigh : v < 2 ^ (-1074 + 53 : ℤ)) :
    t = -1074 := by
  rcases ht with ⟨k, hk, hk', rfl⟩ | ⟨hsmall, rfl⟩
  · have := lt_of_two_zpow_lt (hk.trans_lt hhigh)
    omega
  · rfl

/-- The grid on which a number of the interval is cut off: that of the result, or, below a power of
two, the finer one where it is rounded up to the next power. -/
theorem Rounds.grid {m : ℕ} {e t : ℤ} {v : ℚ} (hc : Canonical m e) (h : Rounds m e v)
    (ht : CutAt v t) :
    (t = e ∧ RoundsTo m (v / 2 ^ e)) ∨
    (t = e - 1 ∧ -1074 < e ∧ m = 2 ^ 52 ∧ RoundsTo (2 ^ 53) (v / 2 ^ (e - 1))) := by
  obtain ⟨-, hlt, hle, -, hfull⟩ := hc
  have hpos := two_zpow_pos e
  have hscale : ∀ n : ℕ, (2 : ℚ) ^ (e + n) = 2 ^ n * 2 ^ e := by
    intro n
    rw [zpow_add₀ two_ne_zero, zpow_natCast, mul_comm]
  have h51 : (2 : ℚ) ^ (e + 51) = 2 ^ 51 * 2 ^ e := hscale 51
  have h52 : (2 : ℚ) ^ (e + 52) = 2 ^ 52 * 2 ^ e := hscale 52
  have h53 : (2 : ℚ) ^ (e + 53) = 2 ^ 53 * 2 ^ e := hscale 53
  have hltq : (m : ℚ) + 1 ≤ 2 ^ 53 := by exact_mod_cast hlt
  have hup : v < 2 ^ (e + 53) := by
    rw [h53, ← div_lt_iff₀ hpos]
    linarith [h.high]
  -- at the lowest exponent the grid is as fine as it gets, whatever the mantissa
  by_cases hbottom : e = -1074
  · subst hbottom
    have hwide : lowEnd m (-1074) = 4 * m - 2 := if_neg (by omega)
    exact Or.inl ⟨ht.eq_lowest hup, h.roundsTo (Or.inr hwide)⟩
  have hfull : 2 ^ 52 ≤ m := hfull.resolve_right hbottom
  have hfullq : (2 : ℚ) ^ 52 ≤ m := by exact_mod_cast hfull
  by_cases hnarrow : m = 2 ^ 52
  · have hend : lowEnd m e = 4 * m - 1 := if_pos ⟨hnarrow, by omega⟩
    have hmq : (m : ℚ) = 2 ^ 52 := by exact_mod_cast hnarrow
    -- below this power of two the grid is finer by one bit, and the number may lie on either side
    rcases le_or_gt (2 ^ 52) (v / 2 ^ e) with hv | hv
    · refine Or.inl ⟨ht.eq_of_between hle ?_ hup, h.roundsTo (Or.inl (hmq ▸ hv))⟩
      rwa [h52, ← le_div_iff₀ hpos]
    · have hlow := h.low
      rw [hend, hmq] at hlow
      have hdouble : v / 2 ^ (e - 1) = 2 * (v / 2 ^ e) := by
        rw [zpow_sub_one₀ two_ne_zero]
        field_simp
      refine Or.inr ⟨ht.eq_of_between (by omega) ?_ ?_, by omega, hnarrow, ?_⟩
      · rw [show e - 1 + 52 = e + 51 by ring, h51, ← le_div_iff₀ hpos]
        linarith
      · rwa [show e - 1 + 53 = e + 52 by ring, h52, ← div_lt_iff₀ hpos]
      · rw [hdouble]
        refine ⟨?_, ?_, fun _ => by norm_num⟩ <;> push_cast <;> linarith
  · have hwide : lowEnd m e = 4 * m - 2 := if_neg (by omega)
    have hgt : (2 : ℚ) ^ 52 + 1 ≤ m := by exact_mod_cast Nat.lt_of_le_of_ne hfull (Ne.symm hnarrow)
    refine Or.inl ⟨ht.eq_of_between hle ?_ hup, h.roundsTo (Or.inr hwide)⟩
    rw [h52, ← le_div_iff₀ hpos]
    linarith [h.low]

/-! ## Rounding -/

theorem Near.cutAt {q : ℕ} {acc : Accuracy} {v : ℚ} {e : ℤ}
    (h : Near (.ofMantissaAndAccuracy q acc) (v / 2 ^ e)) (hbits : 2 ^ 52 ≤ q ∨ e ≤ -1074) :
    CutAt v (gridExponent q e) := by
  by_cases hq : q = 0
  · subst hq
    have he : e ≤ -1074 := hbits.resolve_left (by norm_num)
    have hlt : v / 2 ^ e < 1 := by
      have hlt := h.lt_succ
      rwa [mantissa_ofMantissaAndAccuracy, Nat.cast_zero, zero_add] at hlt
    refine Or.inr ⟨?_, by simp [gridExponent]; omega⟩
    rw [div_lt_one (two_zpow_pos e)] at hlt
    exact hlt.trans_le (zpow_le_zpow_right₀ one_le_two he)
  · obtain ⟨hlow, hhigh⟩ := h.between_powers hq
    exact Or.inl ⟨q.log2 + e, hlow, hhigh, rfl⟩

/-- A canonical mantissa stays where it is in the second shift. -/
theorem shiftToTargetExponent_canonical {m : ℕ} {e : ℤ} (hc : Canonical m e) :
    shiftToTargetExponent Format.binary64 m e .exact = (⟨m, false, false⟩, e) := by
  have hgrid : gridExponent m e = e := by
    unfold gridExponent
    rcases hc.full with hfull | hbottom
    · have := log2_eq_of_full hfull hc.lt
      have := hc.low
      omega
    · have : m.log2 < 53 := (Nat.log2_lt hc.pos.ne').mpr hc.lt
      omega
  rw [shiftToTargetExponent_eq _ hgrid.ge, hgrid, Int.sub_self]
  rfl

/-- A mantissa that was rounded up to one bit more is halved in the second shift. -/
theorem shiftToTargetExponent_carry {e : ℤ} (he : -1074 < e) :
    shiftToTargetExponent Format.binary64 (2 ^ 53) (e - 1) .exact
      = (⟨2 ^ 52, false, false⟩, e) := by
  have hgrid : gridExponent (2 ^ 53) (e - 1) = e := by
    unfold gridExponent
    rw [Nat.log2_two_pow]
    omega
  rw [shiftToTargetExponent_eq _ (by omega), hgrid, show (e - (e - 1)).toNat = 1 by omega]
  rfl

theorem roundWithAccuracy_of_shifts {s : Sign} {q r m : ℕ} {e t e' : ℤ} {acc : Accuracy}
    {em : ExtendedMantissa} (hm : 0 < m)
    (h₁ : shiftToTargetExponent Format.binary64 q e acc = (em, t)) (hr : em.roundedMantissa = r)
    (h₂ : shiftToTargetExponent Format.binary64 r t .exact = (⟨m, false, false⟩, e')) :
    roundWithAccuracy Format.binary64 s q e acc = .finite s m e' hm := by
  unfold roundWithAccuracy
  simp only [h₁, hr, h₂, hm.ne', dite_false]

/-- What lies in the interval of a number is rounded to it. -/
theorem roundWithAccuracy_of_rounds {q m : ℕ} {e e' : ℤ} {acc : Accuracy} {v : ℚ} (s : Sign)
    (hnear : Near (.ofMantissaAndAccuracy q acc) (v / 2 ^ e)) (hbits : 2 ^ 52 ≤ q ∨ e ≤ -1074)
    (hc : Canonical m e') (h : Rounds m e' v) :
    roundWithAccuracy Format.binary64 s q e acc = .finite s m e' hc.pos := by
  have hle := le_gridExponent hbits
  have hshift := shiftToTargetExponent_eq acc hle
  have hgrid := hnear.shiftToGrid hle
  rcases h.grid hc (hnear.cutAt hbits) with ⟨ht, hround⟩ | ⟨ht, he', hm, hround⟩
  · rw [ht] at hshift hgrid
    exact roundWithAccuracy_of_shifts hc.pos hshift (hgrid.roundedMantissa_eq hround)
      (shiftToTargetExponent_canonical hc)
  · rw [ht] at hshift hgrid
    subst hm
    exact roundWithAccuracy_of_shifts hc.pos hshift (hgrid.roundedMantissa_eq hround)
      (shiftToTargetExponent_carry he')

/-! ## Products and quotients -/

theorem near_add {q : ℕ} {r s : Bool} {x : ℚ} (hpos : 0 ≤ x) (hlt : x < 1)
    (hr : r = true ↔ 1 / 2 ≤ x) (hs : s = false ↔ x = 0 ∨ x = 1 / 2) : Near ⟨q, r, s⟩ (q + x) where
  floor_le := le_add_of_nonneg_right hpos
  lt_succ := (add_lt_add_iff_left _).mpr hlt
  round := by rw [hr, add_le_add_iff_left]
  sticky := by rw [hs, add_eq_left, add_right_inj]

theorem near_exact (q : ℕ) : Near (.ofMantissaAndAccuracy q .exact) q := by
  have h : Near ⟨q, false, false⟩ (q + 0) := near_add le_rfl one_pos (by norm_num) (by norm_num)
  rwa [add_zero] at h

theorem mul_of_rounds {m₁ m₂ m : ℕ} {e₁ e₂ e : ℤ} {h₁ : 0 < m₁} {h₂ : 0 < m₂} (s₁ s₂ : Sign)
    (hbits : 2 ^ 52 ≤ m₁ * m₂) (hc : Canonical m e)
    (h : Rounds m e (m₁ * 2 ^ e₁ * (m₂ * 2 ^ e₂))) :
    mul Format.binary64 (.finite s₁ m₁ e₁ h₁) (.finite s₂ m₂ e₂ h₂)
      = .finite (s₁ * s₂) m e hc.pos := by
  refine roundWithAccuracy_of_rounds _ ?_ (Or.inl hbits) hc h
  have hvalue : (m₁ * 2 ^ e₁ * (m₂ * 2 ^ e₂) : ℚ) / 2 ^ (e₁ + e₂) = ((m₁ * m₂ : ℕ) : ℚ) := by
    rw [zpow_add₀ two_ne_zero]
    have := (two_zpow_pos e₁).ne'
    have := (two_zpow_pos e₂).ne'
    push_cast
    field_simp
  rw [hvalue]
  exact near_exact _

/-- The remainder of a division tells where the quotient lies. -/
theorem near_fraction (num : ℕ) {den : ℕ} (hden : 0 < den) :
    Near (.ofMantissaAndAccuracy (num / den) (accuracyOfFraction (num % den) den)) (num / den) := by
  have hdenq : (0 : ℚ) < den := by exact_mod_cast hden
  have hvalue : (num : ℚ) / den = (num / den : ℕ) + ((num % den : ℕ) : ℚ) / den := by
    have hsplit : ((num % den : ℕ) : ℚ) + den * ((num / den : ℕ) : ℚ) = num := by
      exact_mod_cast Nat.mod_add_div num den
    field_simp
    linarith
  have hlt := Nat.mod_lt num hden
  rw [hvalue]
  generalize num / den = q at *
  generalize num % den = r at *
  clear hvalue
  unfold accuracyOfFraction
  by_cases hr : r = 0
  · rw [if_pos hr, hr, Nat.cast_zero, zero_div, add_zero]
    exact near_exact q
  rw [if_neg hr]
  have hpos : 0 < (r : ℚ) / den := div_pos (by exact_mod_cast Nat.pos_of_ne_zero hr) hdenq
  have hone : (r : ℚ) / den < 1 := (div_lt_one hdenq).mpr (by exact_mod_cast hlt)
  have hhalf : (r : ℚ) / den < 1 / 2 ↔ 2 * r < den := by
    rw [div_lt_div_iff₀ hdenq two_pos, one_mul, mul_comm]
    norm_cast
  have hmiddle : (r : ℚ) / den = 1 / 2 ↔ 2 * r = den := by
    rw [div_eq_div_iff hdenq.ne' two_ne_zero, one_mul, mul_comm]
    norm_cast
  rcases lt_trichotomy (2 * r) den with h | h | h
  · rw [Nat.compare_eq_lt.mpr h]
    have hlow := hhalf.mpr h
    exact near_add hpos.le hone (by simpa using hlow) (by simpa [hpos.ne'] using hlow.ne)
  · rw [Nat.compare_eq_eq.mpr h]
    have heq := hmiddle.mpr h
    exact near_add hpos.le hone (by simp [heq]) (by simp [heq])
  · rw [Nat.compare_eq_gt.mpr h]
    have hhigh : 1 / 2 ≤ (r : ℚ) / den := not_lt.mp (mt hhalf.mp h.le.not_gt)
    have hne : (r : ℚ) / den ≠ 1 / 2 := mt hmiddle.mp h.ne'
    exact near_add hpos.le hone (by simpa using hhigh) (by simpa [hpos.ne'] using hne)

theorem le_quotient {m₁ m₂ k : ℕ} (h₁ : 0 < m₁) (h₂ : 0 < m₂) (hk : m₂.log2 + 53 ≤ m₁.log2 + k) :
    2 ^ 52 ≤ m₁ <<< k / m₂ := by
  rw [Nat.le_div_iff_mul_le h₂, Nat.shiftLeft_eq]
  calc 2 ^ 52 * m₂ ≤ 2 ^ 52 * 2 ^ (m₂.log2 + 1) :=
        Nat.mul_le_mul_left _ Nat.lt_log2_self.le
    _ = 2 ^ (m₂.log2 + 53) := by rw [← Nat.pow_add]; congr 1; omega
    _ ≤ 2 ^ (m₁.log2 + k) := Nat.pow_le_pow_right two_pos hk
    _ = 2 ^ m₁.log2 * 2 ^ k := Nat.pow_add ..
    _ ≤ m₁ * 2 ^ k := Nat.mul_le_mul_right _ (Nat.log2_self_le h₁.ne')

/-- The exponent of a quotient leaves enough bits to it. -/
theorem divCore_eq (m₁ m₂ : ℕ) (e₁ e₂ : ℤ) :
    ∃ k : ℕ, divCore Format.binary64 m₁ e₁ m₂ e₂
        = (m₁ <<< k / m₂, e₁ - e₂ - k, accuracyOfFraction (m₁ <<< k % m₂) m₂) ∧
      (m₂.log2 + 53 ≤ m₁.log2 + k ∨ e₁ - e₂ - k ≤ -1074) := by
  have htarget : Format.binary64.targetExponent (totalExponent m₁ e₁ - totalExponent m₂ e₂)
      = max ((m₁.log2 : ℤ) - m₂.log2 + (e₁ - e₂) - 53) (-1074) := by
    change max ((m₁.log2 : ℤ) + 1 + e₁ - (m₂.log2 + 1 + e₂) - 53) (-1074) = _
    congr 1
    omega
  refine ⟨(e₁ - e₂ - min (e₁ - e₂)
    (max ((m₁.log2 : ℤ) - m₂.log2 + (e₁ - e₂) - 53) (-1074))).toNat, ?_, by omega⟩
  unfold divCore
  rw [htarget]
  refine Prod.ext rfl (Prod.ext ?_ rfl)
  dsimp only
  omega

theorem div_of_rounds {m₁ m₂ m : ℕ} {e₁ e₂ e : ℤ} {h₁ : 0 < m₁} {h₂ : 0 < m₂} (s₁ s₂ : Sign)
    (hc : Canonical m e) (h : Rounds m e (m₁ * 2 ^ e₁ / (m₂ * 2 ^ e₂))) :
    div Format.binary64 (.finite s₁ m₁ e₁ h₁) (.finite s₂ m₂ e₂ h₂)
      = .finite (s₁ / s₂) m e hc.pos := by
  obtain ⟨k, hcore, hbits⟩ := divCore_eq m₁ m₂ e₁ e₂
  have hvalue : (m₁ * 2 ^ e₁ / (m₂ * 2 ^ e₂) : ℚ) / 2 ^ (e₁ - e₂ - k)
      = ((m₁ <<< k : ℕ) : ℚ) / m₂ := by
    rw [zpow_sub₀ two_ne_zero, zpow_sub₀ two_ne_zero, zpow_natCast, Nat.shiftLeft_eq]
    have := (two_zpow_pos e₁).ne'
    have := (two_zpow_pos e₂).ne'
    have : (m₂ : ℚ) ≠ 0 := by exact_mod_cast h₂.ne'
    push_cast
    field_simp
  unfold UnpackedFloat.div
  simp only [hcore]
  refine roundWithAccuracy_of_rounds _ ?_ (hbits.imp_left (le_quotient h₁ h₂)) hc h
  rw [hvalue]
  exact near_fraction _ h₂

end DefectScan.Binary64
