import DefectScan.Decimal.Shortest
import DefectScan.Proofs.Rounding

/-!
# Shortest decimals read back

The shortest decimal of a finite number is read as the same number, bit for bit:

    toFloat (isNegative x) ((Dyadic.ofFloat x).shortest tie) = x     (x finite and not zero)

That `readsBack` accepts a decimal means that its value lies in the interval of the number
(`readsBack_iff`), and the search gives only such decimals, or the exact one. What is left is to see
that reading rounds a decimal correctly, on its fast path by a table of powers of ten and on its slow
path by one exact product or quotient (`ofScientific_of_rounds`).
-/

namespace DefectScan.Binary64

open Float.Model Float.Model.UnpackedFloat
open Decimal (Dyadic isNegative)

/-! ## Reading a decimal -/

theorem rounds_self {m : ℕ} {e : ℤ} : Rounds m e (m * 2 ^ e) := by
  have hvalue : (m * 2 ^ e : ℚ) / 2 ^ e = m := mul_div_cancel_right₀ _ (two_zpow_pos e).ne'
  have hlow : lowEnd m e ≤ 4 * m - 1 := by
    unfold lowEnd
    split <;> linarith
  refine ⟨?_, ?_, ?_⟩
  · rw [hvalue]
    linarith
  · rw [hvalue]
    linarith
  · rw [hvalue]
    rintro (h | h) <;> linarith

theorem full_shifted {m : ℕ} (hm : 0 < m) (hlt : m < 2 ^ 53) :
    2 ^ 52 ≤ m * 2 ^ (52 - m.log2) ∧ m * 2 ^ (52 - m.log2) < 2 ^ 53 := by
  have hlog : m.log2 ≤ 52 := Nat.lt_succ_iff.mp ((Nat.log2_lt hm.ne').mpr hlt)
  constructor
  · calc 2 ^ 52 = 2 ^ m.log2 * 2 ^ (52 - m.log2) := by rw [← Nat.pow_add]; congr 1; omega
      _ ≤ m * 2 ^ (52 - m.log2) := Nat.mul_le_mul_right _ (Nat.log2_self_le hm.ne')
  · calc m * 2 ^ (52 - m.log2) < 2 ^ (m.log2 + 1) * 2 ^ (52 - m.log2) :=
          Nat.mul_lt_mul_of_pos_right Nat.lt_log2_self (Nat.two_pow_pos _)
      _ = 2 ^ 53 := by rw [← Nat.pow_add]; congr 1; omega

/-- A small natural number is a float. -/
theorem unpack_natToFloat {m : ℕ} (hm : 0 < m) (hlt : m < 2 ^ 53) :
    ∃ (m' : ℕ) (e : ℤ) (h : 0 < m'), m.toUInt64.toFloat.toModel.unpack = .finite .positive m' e h ∧
      2 ^ 52 ≤ m' ∧ (m' * 2 ^ e : ℚ) = m := by
  obtain ⟨hfull, hsmall⟩ := full_shifted hm hlt
  have hlog : m.log2 ≤ 52 := Nat.lt_succ_iff.mp ((Nat.log2_lt hm.ne').mpr hlt)
  have hc : Canonical (m * 2 ^ (52 - m.log2)) ((m.log2 : ℤ) - 52) :=
    ⟨by omega, hsmall, by omega, by omega, Or.inl hfull⟩
  have hnat : m.toUInt64.toNat = m := by
    have hword : m < 2 ^ 64 := by omega
    simpa using hword
  have hgrid : gridExponent m 0 = (m.log2 : ℤ) - 52 := by
    unfold gridExponent
    omega
  have hshift : (0 - ((m.log2 : ℤ) - 52)).toNat = 52 - m.log2 := by omega
  have hdown : (0 : ℤ) - (52 - m.log2 : ℕ) = m.log2 - 52 := by omega
  have hround : UnpackedFloat.ofUInt64 Format.binary64 m.toUInt64
      = .finite .positive (m * 2 ^ (52 - m.log2)) ((m.log2 : ℤ) - 52) hc.pos := by
    unfold UnpackedFloat.ofUInt64 UnpackedFloat.ofNat UnpackedFloat.ofInt
      UnpackedFloat.normalize
    rw [hnat, Int.compare_eq_gt.mpr (by omega)]
    unfold UnpackedFloat.round decreaseExponent
    simp only [Int.toNat_natCast, targetExponent_totalExponent, hgrid, hshift, hdown,
      Nat.shiftLeft_eq]
    refine roundWithAccuracy_of_rounds _ ?_ (Or.inl hfull) hc rounds_self
    rw [mul_div_cancel_right₀ _ (two_zpow_pos _).ne']
    exact near_exact _
  refine ⟨m * 2 ^ (52 - m.log2), (m.log2 : ℤ) - 52, hc.pos, ?_, hfull, ?_⟩
  · change (Float.Model.pack (UnpackedFloat.ofUInt64 Format.binary64 m.toUInt64)).unpack = _
    rw [hround]
    exact unpack_pack_finite hc
  · push_cast
    rw [mul_assoc, ← zpow_natCast, ← zpow_add₀ two_ne_zero]
    have hzero : ((52 - m.log2 : ℕ) : ℤ) + (m.log2 - 52) = 0 := by omega
    rw [hzero, zpow_zero, mul_one]

theorem zpow_eq_div {b : ℚ} (hb : b ≠ 0) (e : ℤ) : b ^ e = b ^ e.toNat / b ^ (-e).toNat := by
  rw [← zpow_natCast, ← zpow_natCast, ← zpow_sub₀ hb]
  congr 1
  omega

theorem powersOfTen_exact : ∀ i : Fin Float.exactlyRepresentablePowersOfTen.size,
    let x := Float.exactlyRepresentablePowersOfTen[i]
    let d := Dyadic.ofFloat x
    x.isFinite = true ∧ isNegative x = false ∧ 2 ^ 52 ≤ d.mantissa ∧
      d.mantissa * 2 ^ d.exponent.toNat = 10 ^ i.val * 2 ^ (-d.exponent).toNat := by
  decide +kernel

theorem unpack_powerOfTen {i : ℕ} (hi : i < Float.exactlyRepresentablePowersOfTen.size) :
    ∃ (m : ℕ) (e : ℤ) (h : 0 < m),
      Float.exactlyRepresentablePowersOfTen[i].toModel.unpack = .finite .positive m e h ∧
      2 ^ 52 ≤ m ∧ (m * 2 ^ e : ℚ) = 10 ^ i := by
  obtain ⟨hfin, hsign, hfull, hvalue⟩ := powersOfTen_exact ⟨i, hi⟩
  simp only [Fin.getElem_fin] at hfin hsign hfull hvalue
  generalize Float.exactlyRepresentablePowersOfTen[i] = x at *
  rcases unpack_of_isFinite hfin with ⟨hzero, -⟩ | ⟨hpos, hunpack⟩
  · omega
  · rw [hsign] at hunpack
    refine ⟨_, _, hpos, hunpack, hfull, ?_⟩
    rw [zpow_eq_div two_ne_zero, ← mul_div_assoc, div_eq_iff (by positivity)]
    exact_mod_cast hvalue

theorem ten_zpow_of_nonneg {e : ℤ} (he : 0 ≤ e) : (10 : ℚ) ^ e = (10 ^ e.natAbs : ℕ) := by
  obtain ⟨n, rfl⟩ := Int.eq_ofNat_of_zero_le he
  rw [zpow_natCast, Int.natAbs_natCast]
  push_cast
  rfl

theorem ten_zpow_of_neg {e : ℤ} (he : e < 0) : (10 : ℚ) ^ e = 1 / (10 ^ e.natAbs : ℕ) := by
  have hpos := ten_zpow_of_nonneg (e := -e) (by omega)
  rw [Int.natAbs_neg] at hpos
  rw [← hpos, zpow_neg, one_div, inv_inv]

theorem ofScientific_slow {m n : ℕ} {e k : ℤ} (hm : 0 < m) (hhigh : e ≤ 2 ^ 11)
    (hlow : -(2 ^ 11 + (m.log2 : ℤ)) ≤ e) (hc : Canonical n k) (h : Rounds n k (m * 10 ^ e)) :
    UnpackedFloat.ofScientific Format.binary64 m e = .finite .positive n k hc.pos := by
  unfold UnpackedFloat.ofScientific
  rw [dif_neg hm.ne', if_neg (by push_cast; omega), if_neg (by push_cast; omega)]
  by_cases he : 0 ≤ e
  · rw [if_pos he]
    have habs : e.toNat = e.natAbs := by omega
    -- the product has bits to spare because the mantissa is shifted before
    have hbits : 2 ^ 52 ≤ m <<< 53 * 10 ^ e.toNat := by
      rw [Nat.shiftLeft_eq]
      calc 2 ^ 52 ≤ 1 * 2 ^ 53 * 1 := by norm_num
        _ ≤ m * 2 ^ 53 * 10 ^ e.toNat :=
          Nat.mul_le_mul (Nat.mul_le_mul_right _ hm) (Nat.pow_pos (by norm_num))
    have hvalue : (m * 10 ^ e : ℚ)
        = (m <<< 53 : ℕ) * 2 ^ (-(53 : ℕ) : ℤ) * ((10 ^ e.toNat : ℕ) * 2 ^ (0 : ℤ)) := by
      rw [ten_zpow_of_nonneg he, habs, Nat.shiftLeft_eq, zpow_neg, zpow_natCast, zpow_zero]
      push_cast
      field_simp
      norm_num
    rw [hvalue] at h
    exact mul_of_rounds .positive .positive hbits hc h
  · rw [if_neg he]
    have habs : (-e).toNat = e.natAbs := by omega
    have hvalue : (m * 10 ^ e : ℚ) = m * 2 ^ (0 : ℤ) / ((10 ^ (-e).toNat : ℕ) * 2 ^ (0 : ℤ)) := by
      rw [ten_zpow_of_neg (by omega), habs, zpow_zero, mul_one, mul_one, mul_one_div]
    rw [hvalue] at h
    exact div_of_rounds .positive .positive hc h

theorem ofScientific_fast {m n : ℕ} {e k : ℤ} (hm : 0 < m) (hlt : m < 2 ^ 53)
    (hi : e.natAbs < Float.exactlyRepresentablePowersOfTen.size) (hc : Canonical n k)
    (h : Rounds n k (m * 10 ^ e)) :
    (if e < 0 then m.toUInt64.toFloat / Float.exactlyRepresentablePowersOfTen[e.natAbs]
      else m.toUInt64.toFloat * Float.exactlyRepresentablePowersOfTen[e.natAbs])
      = .ofModel (.pack (.finite .positive n k hc.pos)) := by
  obtain ⟨m₁, e₁, h₁, hunpack₁, hfull₁, hvalue₁⟩ := unpack_natToFloat hm hlt
  obtain ⟨m₂, e₂, h₂, hunpack₂, hfull₂, hvalue₂⟩ := unpack_powerOfTen hi
  have hbits : 2 ^ 52 ≤ m₁ * m₂ := hfull₁.trans (Nat.le_mul_of_pos_right _ h₂)
  split
  · next he =>
    rw [ten_zpow_of_neg he, mul_one_div, ← hvalue₁] at h
    push_cast at h
    rw [← hvalue₂] at h
    change Float.ofModel (.pack (UnpackedFloat.div Format.binary64 _ _)) = _
    rw [hunpack₁, hunpack₂, div_of_rounds .positive .positive hc h]
    rfl
  · next he =>
    rw [ten_zpow_of_nonneg (by omega), ← hvalue₁] at h
    push_cast at h
    rw [← hvalue₂] at h
    change Float.ofModel (.pack (UnpackedFloat.mul Format.binary64 _ _)) = _
    rw [hunpack₁, hunpack₂, mul_of_rounds .positive .positive hbits hc h]
    rfl

/-- A decimal in the interval of a number is read as this number. -/
theorem ofScientific_of_rounds {m n : ℕ} {e k : ℤ} (hm : 0 < m) (hhigh : e ≤ 2 ^ 11)
    (hlow : -(2 ^ 11 + (m.log2 : ℤ)) ≤ e) (hc : Canonical n k) (h : Rounds n k (m * 10 ^ e)) :
    Float.ofScientific m (e < 0) e.natAbs = .ofModel (.pack (.finite .positive n k hc.pos)) := by
  unfold Float.ofScientific
  split
  · next hfast =>
    have hi : e.natAbs < Float.exactlyRepresentablePowersOfTen.size := Nat.lt_succ_of_le hfast.2
    rw [← ofScientific_fast hm hfast.1 hi hc h]
    simp only [decide_eq_true_eq]
  · have hsigned : (if decide (e < 0) = true then Int.negOfNat e.natAbs else Int.ofNat e.natAbs) = e := by
      split
      · next he =>
        rw [decide_eq_true_eq] at he
        rw [Int.negOfNat_eq]
        change -(e.natAbs : ℤ) = e
        omega
      · next he =>
        rw [decide_eq_true_eq] at he
        change (e.natAbs : ℤ) = e
        omega
    rw [hsigned]
    exact congrArg _ (congrArg _ (ofScientific_slow hm hhigh hlow hc h))

end DefectScan.Binary64

namespace DefectScan.Decimal

open Binary64

/-! ## The interval of a float -/

def Number.value (d : Number) : ℚ := d.digits * 10 ^ d.exponent

/-- Both sides of a comparison are brought to the same denominator. -/
theorem scaled_eq (a : ℕ) (i : ℤ) (n : ℕ) (j : ℤ) :
    ((scaled a i n j).1 : ℚ) = a * 10 ^ i * (10 ^ (-i).toNat * 2 ^ (-j).toNat) ∧
    ((scaled a i n j).2 : ℚ) = n * 2 ^ j * (10 ^ (-i).toNat * 2 ^ (-j).toNat) := by
  have h10 := zpow_eq_div (b := 10) (by norm_num) i
  have h2 := zpow_eq_div (b := 2) (by norm_num) j
  rw [h10, h2]
  simp only [scaled, Nat.pow_eq]
  constructor <;> push_cast <;> field_simp

theorem compareScaled_eq (a : ℕ) (i : ℤ) (n : ℕ) (j : ℤ) :
    (compareScaled a i n j = .lt ↔ (a * 10 ^ i : ℚ) < n * 2 ^ j) ∧
    (compareScaled a i n j = .eq ↔ (a * 10 ^ i : ℚ) = n * 2 ^ j) ∧
    (compareScaled a i n j = .gt ↔ (n * 2 ^ j : ℚ) < a * 10 ^ i) := by
  obtain ⟨hleft, hright⟩ := scaled_eq a i n j
  have hpos : (0 : ℚ) < 10 ^ (-i).toNat * 2 ^ (-j).toNat := by positivity
  unfold compareScaled
  rw [Nat.compare_eq_lt, Nat.compare_eq_eq, Nat.compare_eq_gt]
  rw [← @Nat.cast_lt ℚ, ← @Nat.cast_inj ℚ, ← @Nat.cast_lt ℚ, hleft, hright]
  exact ⟨mul_lt_mul_iff_left₀ hpos, mul_left_inj' hpos.ne', mul_lt_mul_iff_left₀ hpos⟩

/-- The magnitude of a finite float that is not zero. -/
structure Dyadic.Proper (x : Dyadic) : Prop where
  canonical : Canonical x.mantissa x.exponent
  narrow : x.narrowBelow = decide (x.mantissa = 2 ^ 52 ∧ -1074 < x.exponent)

theorem Dyadic.Proper.low_eq {x : Dyadic} (hx : x.Proper) :
    ((if x.narrowBelow then 4 * x.mantissa - 1 else 4 * x.mantissa - 2 : ℕ) : ℚ)
      = lowEnd x.mantissa x.exponent := by
  have hpos := hx.canonical.pos
  unfold lowEnd
  rw [hx.narrow]
  by_cases h : x.mantissa = 2 ^ 52 ∧ -1074 < x.exponent
  · rw [decide_eq_true h, if_pos rfl, if_pos h, Nat.cast_sub (by omega)]
    push_cast
    rfl
  · rw [decide_eq_false h, if_neg Bool.false_ne_true, if_neg h, Nat.cast_sub (by omega)]
    push_cast
    rfl

theorem four_mul_div (v : ℚ) (e : ℤ) : 4 * (v / 2 ^ e) = v / 2 ^ (e - 2) := by
  rw [zpow_sub₀ two_ne_zero]
  have := (two_zpow_pos e).ne'
  field_simp
  ring

/-- `readsBack` decides whether a decimal lies in the interval. -/
theorem Dyadic.Proper.readsBack_iff {x : Dyadic} (hx : x.Proper) (d : Number) :
    x.readsBack d = true ↔ Rounds x.mantissa x.exponent d.value := by
  have hquarter := two_zpow_pos (x.exponent - 2)
  have hhigh : ((4 * x.mantissa + 2 : ℕ) : ℚ) = 4 * x.mantissa + 2 := by push_cast; rfl
  obtain ⟨-, hleq, hlgt⟩ := compareScaled_eq d.digits d.exponent
    (if x.narrowBelow then 4 * x.mantissa - 1 else 4 * x.mantissa - 2) (x.exponent - 2)
  obtain ⟨hhlt, hheq, -⟩ := compareScaled_eq d.digits d.exponent (4 * x.mantissa + 2) (x.exponent - 2)
  rw [hx.low_eq, ← lt_div_iff₀ hquarter] at hlgt
  rw [hx.low_eq, ← div_eq_iff hquarter.ne'] at hleq
  rw [hhigh, ← div_lt_iff₀ hquarter] at hhlt
  rw [hhigh, ← div_eq_iff hquarter.ne'] at hheq
  unfold Dyadic.readsBack
  simp only [Bool.and_eq_true, Bool.or_eq_true, decide_eq_true_eq, hlgt, hleq, hhlt, hheq]
  change _ ↔ Rounds x.mantissa x.exponent (d.digits * 10 ^ d.exponent)
  generalize (d.digits * 10 ^ d.exponent : ℚ) = v
  constructor
  · rintro ⟨hl, hh⟩
    refine ⟨?_, ?_, ?_⟩
    · rw [four_mul_div]
      rcases hl with hl | ⟨-, hl⟩
      · exact hl.le
      · exact hl.ge
    · rw [four_mul_div]
      rcases hh with hh | ⟨-, hh⟩
      · exact hh.le
      · exact hh.le
    · rw [four_mul_div]
      rintro (heq | heq)
      · rcases hl with hl | ⟨heven, -⟩
        · exact absurd heq hl.ne'
        · exact heven
      · rcases hh with hh | ⟨heven, -⟩
        · exact absurd heq hh.ne
        · exact heven
  · rintro ⟨hl, hh, heven⟩
    rw [four_mul_div] at hl hh heven
    constructor
    · rcases hl.lt_or_eq with hlt | heq
      · exact Or.inl hlt
      · exact Or.inr ⟨heven (Or.inl heq.symm), heq.symm⟩
    · rcases hh.lt_or_eq with hlt | heq
      · exact Or.inl hlt
      · exact Or.inr ⟨heven (Or.inr heq), heq⟩

/-! ## The search for the shortest decimal -/

theorem Dyadic.readsBack_of_onGrid {x : Dyadic} {tie : Tie} {grid : ℤ} {d : Number}
    (h : x.onGrid tie grid = some d) : x.readsBack d = true := by
  unfold onGrid at h
  simp only at h
  split at h
  · next hlow hhigh =>
    split at h
    · cases h
      exact hlow
    · split at h
      · cases h
        exact hhigh
      · split at h
        · cases h
          exact hlow
        · cases h
          exact hhigh
  · next hlow _ =>
    cases h
    exact hlow
  · next _ hhigh =>
    cases h
    exact hhigh
  · cases h

theorem Number.value_strip (fuel : ℕ) (d : Number) : (strip fuel d).value = d.value := by
  induction fuel generalizing d with
  | zero => rfl
  | succ fuel ih =>
    unfold strip
    split
    · next h =>
      rw [ih]
      simp only [Bool.and_eq_true, decide_eq_true_eq] at h
      obtain ⟨k, hk⟩ := Nat.dvd_of_mod_eq_zero h.1
      unfold value
      rw [hk, Nat.mul_div_cancel_left _ (by norm_num), zpow_add_one₀ (by norm_num)]
      push_cast
      ring
    · rfl

/-- The exact decimal of a magnitude. -/
theorem Dyadic.value_exact (x : Dyadic) :
    Number.value (if 0 ≤ x.exponent then ⟨x.mantissa * 2 ^ x.exponent.toNat, 0⟩
      else ⟨x.mantissa * 5 ^ (-x.exponent).toNat, x.exponent⟩) = x.mantissa * 2 ^ x.exponent := by
  split
  · next h =>
    unfold Number.value
    rw [zpow_zero, mul_one, zpow_eq_div two_ne_zero, show (-x.exponent).toNat = 0 by omega]
    push_cast
    ring
  · next h =>
    obtain ⟨n, hn⟩ : ∃ n : ℕ, x.exponent = -n := ⟨x.exponent.natAbs, by omega⟩
    unfold Number.value
    rw [hn, neg_neg, Int.toNat_natCast, zpow_neg, zpow_neg, zpow_natCast, zpow_natCast]
    push_cast
    rw [show (10 : ℚ) = 5 * 2 by norm_num, mul_pow]
    field_simp

theorem Dyadic.Proper.rounds_shortest {x : Dyadic} (hx : x.Proper) (tie : Tie) :
    Rounds x.mantissa x.exponent (x.shortest tie).value := by
  unfold shortest
  simp only [Nat.pow_eq]
  rw [Number.value_strip]
  cases hfound : (List.range maxDigits).findSome? fun (n : Nat) => x.onGrid tie (x.scale - (n + 1)) with
  | none =>
    rw [Option.getD_none, value_exact]
    exact rounds_self
  | some d =>
    obtain ⟨n, -, hgrid⟩ := List.exists_of_findSome?_eq_some hfound
    rw [Option.getD_some]
    exact (hx.readsBack_iff d).mp (readsBack_of_onGrid hgrid)

/-! ## Reading back -/

theorem proper_ofFloat {x : Float} (hx : x.isFinite = true) (hzero : (Dyadic.ofFloat x).mantissa ≠ 0) :
    (Dyadic.ofFloat x).Proper := by
  have hcanonical : Canonical (Dyadic.ofFloat x).mantissa (Dyadic.ofFloat x).exponent := by
    rcases unpack_of_isFinite hx with ⟨hmant, -⟩ | ⟨hpos, hunpack⟩
    · exact absurd hmant hzero
    · have hr := reads_float x
      rw [hunpack] at hr
      exact hr.canonical
  refine ⟨hcanonical, ?_⟩
  by_cases he : x.toBits.toNat / 2 ^ 52 % 2 ^ 11 = 0
  · rw [ofFloat_of_exponent_zero he]
    simp
  · rw [ofFloat_of_exponent_ne_zero he]
    simp only [← Bool.decide_and]
    exact decide_eq_decide.mpr (by omega)

/-- No number of an interval is too small or too large to be read. -/
theorem bounds_of_rounds {m : ℕ} {e : ℤ} {v : ℚ} (hc : Canonical m e) (h : Rounds m e v) :
    2 ^ (-1075 : ℤ) ≤ v ∧ v ≤ 2 ^ (1024 : ℤ) := by
  have hpos := two_zpow_pos e
  have hm : (1 : ℚ) ≤ m := by exact_mod_cast hc.pos
  have hlt : (m : ℚ) + 1 ≤ 2 ^ 53 := by exact_mod_cast hc.lt
  constructor
  · have hhalf : 1 / 2 ≤ v / 2 ^ e := by linarith [h.low, le_lowEnd m e]
    have hsplit : (2 : ℚ) ^ (-1 + -1074 : ℤ) = 1 / 2 * 2 ^ (-1074 : ℤ) := by
      rw [zpow_add₀ two_ne_zero, zpow_neg_one, one_div]
    calc (2 : ℚ) ^ (-1075 : ℤ) = 1 / 2 * 2 ^ (-1074 : ℤ) := hsplit
      _ ≤ 1 / 2 * 2 ^ e := by
        have := zpow_le_zpow_right₀ (by norm_num : (1 : ℚ) ≤ 2) hc.low
        linarith
      _ ≤ v := (le_div_iff₀ hpos).mp hhalf
  · have htop : v / 2 ^ e ≤ 2 ^ 53 := by linarith [h.high]
    calc v ≤ 2 ^ 53 * 2 ^ e := (div_le_iff₀ hpos).mp htop
      _ ≤ 2 ^ 53 * 2 ^ (971 : ℤ) := by
        have := zpow_le_zpow_right₀ (by norm_num : (1 : ℚ) ≤ 2) hc.high
        linarith
      _ = 2 ^ (1024 : ℤ) := by
        rw [← zpow_natCast, ← zpow_add₀ two_ne_zero]
        rfl

theorem digits_pos_of_rounds {m : ℕ} {e : ℤ} {d : Number} (hc : Canonical m e)
    (h : Rounds m e d.value) : 0 < d.digits := by
  have hlow := (bounds_of_rounds hc h).1
  rcases Nat.eq_zero_or_pos d.digits with hd | hd
  · have hvalue : d.value = 0 := by rw [Number.value, hd, Nat.cast_zero, zero_mul]
    rw [hvalue] at hlow
    exact absurd hlow (two_zpow_pos _).not_ge
  · exact hd

theorem lt_ten_pow_width (n : ℕ) : n < 10 ^ (Nat.toDigits 10 n).length :=
  (Nat.length_toDigits_le_iff (by norm_num) Nat.length_toDigits_pos).mp le_rfl

theorem ten_pow_le_of_width {n k : ℕ} (hn : 0 < n) (hk : (Nat.toDigits 10 n).length = k + 1) :
    10 ^ k ≤ n := by
  by_contra hlt
  rcases Nat.eq_zero_or_pos k with rfl | hpos
  · omega
  · have := (Nat.length_toDigits_le_iff (by norm_num) hpos).mpr (not_le.mp hlt)
    omega

theorem two_pow_lt_ten_pow : (2 : ℚ) ^ 1075 < 10 ^ 400 := by
  calc (2 : ℚ) ^ 1075 ≤ 2 ^ (3 * 400) := pow_le_pow_right₀ one_le_two (by norm_num)
    _ = (2 ^ 3) ^ 400 := pow_mul ..
    _ < 10 ^ 400 := pow_lt_pow_left₀ (by norm_num) (by norm_num) (by norm_num)

/-- The power of ten before the leading digit of a number that is not too small or too large. -/
theorem point_bounds {d : Number} (hpos : 0 < d.digits) (hlow : 2 ^ (-1075 : ℤ) ≤ d.value)
    (hhigh : d.value ≤ 2 ^ (1024 : ℤ)) :
    -400 ≤ d.exponent + (Nat.toDigits 10 d.digits).length ∧
    d.exponent + (Nat.toDigits 10 d.digits).length ≤ 400 := by
  have hten : (0 : ℚ) < 10 ^ d.exponent := zpow_pos (by norm_num) _
  constructor
  · by_contra hsmall
    have hlt : (d.digits : ℚ) < 10 ^ (Nat.toDigits 10 d.digits).length := by
      exact_mod_cast lt_ten_pow_width d.digits
    have hvalue : d.value < 10 ^ (d.exponent + (Nat.toDigits 10 d.digits).length) := by
      rw [zpow_add₀ (by norm_num), zpow_natCast, mul_comm]
      exact mul_lt_mul_of_pos_right hlt hten
    have htiny : (10 : ℚ) ^ (d.exponent + (Nat.toDigits 10 d.digits).length) ≤ 10 ^ (-400 : ℤ) :=
      zpow_le_zpow_right₀ (by norm_num) (by omega)
    have hgap : (10 : ℚ) ^ (-400 : ℤ) < 2 ^ (-1075 : ℤ) := by
      rw [zpow_neg, zpow_neg]
      exact inv_strictAnti₀ (by positivity) two_pow_lt_ten_pow
    exact lt_irrefl _ (((hlow.trans_lt hvalue).trans_le htiny).trans hgap)
  · by_contra hlarge
    obtain ⟨k, hk⟩ := Nat.exists_eq_add_of_lt (@Nat.length_toDigits_pos 10 d.digits)
    rw [Nat.zero_add] at hk
    have hle : (10 : ℚ) ^ k ≤ d.digits := by exact_mod_cast ten_pow_le_of_width hpos hk
    have hvalue : (10 : ℚ) ^ (d.exponent + k) ≤ d.value := by
      rw [zpow_add₀ (by norm_num), zpow_natCast, mul_comm]
      exact mul_le_mul_of_nonneg_right hle hten.le
    have hhuge : (10 : ℚ) ^ (400 : ℤ) ≤ 10 ^ (d.exponent + k) :=
      zpow_le_zpow_right₀ (by norm_num) (by omega)
    have hgap : (2 : ℚ) ^ (1024 : ℤ) < 10 ^ (400 : ℤ) :=
      (zpow_le_zpow_right₀ one_le_two (by norm_num : (1024 : ℤ) ≤ (1075 : ℕ))).trans_lt
        two_pow_lt_ten_pow
    exact lt_irrefl _ (((hhuge.trans hvalue).trans hhigh).trans_lt hgap)

theorem width_le_log2 {n : ℕ} (hn : 0 < n) : (Nat.toDigits 10 n).length ≤ n.log2 + 1 := by
  obtain ⟨k, hk⟩ := Nat.exists_eq_add_of_lt (@Nat.length_toDigits_pos 10 n)
  rw [Nat.zero_add] at hk
  have hpow : 2 ^ k ≤ n := (Nat.pow_le_pow_left (by norm_num) k).trans (ten_pow_le_of_width hn hk)
  have := (Nat.le_log2 hn.ne').mpr hpow
  omega

open Float.Model Float.Model.UnpackedFloat in
theorem neg_pack_finite {m : ℕ} {e : ℤ} (hc : Canonical m e) :
    -Float.ofModel (.pack (.finite .positive m e hc.pos))
      = .ofModel (.pack (.finite .negative m e hc.pos)) := by
  change Float.ofModel (.pack (Float.Model.pack (.finite .positive m e hc.pos)).unpack.neg) = _
  rw [unpack_pack_finite hc]
  rfl

/-- A decimal in the interval of a float is read as this float. -/
theorem toFloat_of_rounds {x : Float} (hx : x.isFinite = true)
    (hzero : (Dyadic.ofFloat x).mantissa ≠ 0) {d : Number}
    (h : Rounds (Dyadic.ofFloat x).mantissa (Dyadic.ofFloat x).exponent d.value) :
    toFloat (isNegative x) d = x := by
  have hc := (proper_ofFloat hx hzero).canonical
  obtain ⟨hlow, hhigh⟩ := bounds_of_rounds hc h
  have hpos := digits_pos_of_rounds hc h
  obtain ⟨hfrom, hto⟩ := point_bounds hpos hlow hhigh
  have hwidth := width_le_log2 hpos
  have hread := ofScientific_of_rounds hpos (by omega) (by omega) hc h
  rcases unpack_of_isFinite hx with ⟨hmant, -⟩ | ⟨hm, hunpack⟩
  · exact absurd hmant hzero
  have hself := eq_ofModel_pack hunpack
  -- a decimal that rounds to a float is not cut off for its size
  have hguard : ¬ (decide (d.digits = 0)
      || decide (d.exponent + (Nat.toDigits 10 d.digits).length < -400)) = true := by
    simp only [Bool.or_eq_true, decide_eq_true_eq]
    omega
  unfold toFloat
  simp only
  rw [if_neg hguard, if_neg (not_lt.mpr hto), hread]
  cases hsign : isNegative x with
  | true =>
    rw [hsign] at hself
    rw [if_pos rfl, neg_pack_finite hc]
    exact hself.symm
  | false =>
    rw [hsign] at hself
    rw [if_neg Bool.false_ne_true]
    exact hself.symm

theorem toFloat_zero {x : Float} (hx : x.isFinite = true)
    (hzero : (Dyadic.ofFloat x).mantissa = 0) (e : ℤ) : toFloat (isNegative x) ⟨0, e⟩ = x := by
  rcases unpack_of_isFinite hx with ⟨-, hunpack⟩ | ⟨hm, -⟩
  · have hself := eq_ofModel_pack hunpack
    have hmagnitude : toFloat (isNegative x) ⟨0, e⟩ = if isNegative x then -0 else 0 := by
      simp [toFloat]
    rw [hmagnitude]
    cases hsign : isNegative x with
    | true =>
      rw [hsign] at hself
      rw [if_pos rfl, hself]
      decide +kernel
    | false =>
      rw [hsign] at hself
      rw [if_neg Bool.false_ne_true, hself]
      decide +kernel
  · exact absurd hzero hm.ne'

end DefectScan.Decimal
