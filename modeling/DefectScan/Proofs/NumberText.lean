import DefectScan.Json.Doc
import DefectScan.Json.Value
import DefectScan.Proofs.ReadBack

/-!
# The text of numbers

Numbers are read back from their text, whatever stands behind it as long as it does not go on with
the number (`Ends`):

    readNumeral (toString n ++ rest) = (n as it is, rest)
    readNumeral (render x ++ rest)   = (a decimal that is read as x, rest)

The layout of a real number moves its point about, but the decimal that is read has the value of the
shortest one in every layout (`laidOut_layout`).
-/

namespace DefectScan.Json

open Decimal

/-! ## Digits -/

/-- A text that does not go on with a number. -/
def Ends (rest : List Char) : Prop :=
  ∀ c ∈ rest.head?, isDigit c = false ∧ c ≠ '.' ∧ c ≠ 'e' ∧ c ≠ 'E'

/-- A text that does not go on with a digit. -/
def EndsDigits (rest : List Char) : Prop := ∀ c ∈ rest.head?, isDigit c = false

theorem Ends.endsDigits {rest : List Char} (h : Ends rest) : EndsDigits rest :=
  fun c hc => (h c hc).1

theorem isDigit_of_mem_digitsOf {n : ℕ} {c : Char} (h : c ∈ digitsOf n) : isDigit c = true :=
  Nat.isDigit_of_mem_toDigits (by norm_num) (by norm_num) h

theorem digitsValue_digitsOf (n : ℕ) : digitsValue (digitsOf n) = n := Nat.ofDigitChars_ten_toDigits

theorem digitsValue_append_zeros (ds : List Char) (n : ℕ) :
    digitsValue (ds ++ zeros n) = digitsValue ds * 10 ^ n := by
  unfold digitsValue
  rw [List.foldl_append, mul_comm]
  exact Nat.ofDigitChars_replicate_zero

theorem digitsValue_zeros_append (n : ℕ) (ds : List Char) :
    digitsValue (zeros n ++ ds) = digitsValue ds := by
  have hzeros : Nat.ofDigitChars 10 (List.replicate n '0') 0 = 0 := by
    rw [Nat.ofDigitChars_replicate_zero, mul_zero]
  unfold digitsValue
  rw [List.foldl_append]
  exact congrArg (ds.foldl _) hzeros

/-- The digits of a number start with a zero only if it is zero. -/
theorem head_digitsOf_ne_zero {n : ℕ} (hn : 0 < n) : (digitsOf n).head? ≠ some '0' := by
  induction n using Nat.strongRecOn with
  | ind n ih =>
    unfold digitsOf at *
    by_cases hlt : n < 10
    · rw [Nat.toDigits_of_lt_base hlt]
      have hdigit : ∀ k : Fin 10, 0 < k.val → k.val.digitChar ≠ '0' := by decide
      simpa using hdigit ⟨n, hlt⟩ hn
    · rw [Nat.toDigits_of_base_le (by norm_num) (by omega)]
      have hhead := ih (n / 10) (by omega) (by omega)
      rw [List.head?_append_of_ne_nil _ Nat.toDigits_ne_nil]
      exact hhead

theorem takeWhile_isDigit_append {ds rest : List Char} (hds : ∀ c ∈ ds, isDigit c = true)
    (hrest : EndsDigits rest) : (ds ++ rest).takeWhile isDigit = ds := by
  rw [List.takeWhile_append_of_pos hds]
  cases rest with
  | nil => simp
  | cons c rest => simp [hrest c rfl]

theorem dropWhile_isDigit_append {ds rest : List Char} (hds : ∀ c ∈ ds, isDigit c = true)
    (hrest : EndsDigits rest) : (ds ++ rest).dropWhile isDigit = rest := by
  rw [List.dropWhile_append_of_pos hds]
  cases rest with
  | nil => rfl
  | cons c rest => simp [hrest c rfl]

theorem someDigits_append {ds rest : List Char} (hds : ∀ c ∈ ds, isDigit c = true) (hne : ds ≠ [])
    (hrest : EndsDigits rest) : someDigits (ds ++ rest) = .ok (ds, rest) := by
  unfold someDigits splitDigits
  rw [takeWhile_isDigit_append hds hrest, dropWhile_isDigit_append hds hrest]
  cases ds with
  | nil => exact absurd rfl hne
  | cons d ds => rfl

/-! ## Numerals -/

/-- The digits before the point: a zero stands alone. -/
structure Leading (ds : List Char) : Prop where
  digits : ∀ c ∈ ds, isDigit c = true
  ne_nil : ds ≠ []
  zero_alone : ds.head? = some '0' → ds = ['0']

/-- The text of the digits behind the point, if there are any. -/
inductive Places : Option (List Char) → List Char → Prop
  | none : Places none []
  | some {ds : List Char} (hds : ∀ c ∈ ds, isDigit c = true) (hne : ds ≠ []) :
      Places (some ds) ('.' :: ds)

/-- The text of the power of ten, if there is one. -/
inductive Power : Option ℤ → List Char → Prop
  | none : Power none []
  | up (n : ℕ) : Power (some n) ('e' :: '+' :: digitsOf n)
  | down (n : ℕ) : Power (some (-n)) ('e' :: '-' :: digitsOf n)

theorem leading_digitsOf (n : ℕ) : Leading (digitsOf n) := by
  refine ⟨fun c hc => isDigit_of_mem_digitsOf hc, Nat.toDigits_ne_nil, ?_⟩
  intro hhead
  rcases Nat.eq_zero_or_pos n with rfl | hn
  · rfl
  · exact absurd hhead (head_digitsOf_ne_zero hn)

theorem wholeDigits_append {ds rest : List Char} (h : Leading ds) (hrest : EndsDigits rest) :
    wholeDigits (ds ++ rest) = .ok (ds, rest) := by
  have hsome := someDigits_append h.digits h.ne_nil hrest
  unfold wholeDigits
  split
  · next c rest' heq =>
    cases ds with
    | nil => exact absurd rfl h.ne_nil
    | cons d ds =>
      rw [List.cons_append, List.cons.injEq] at heq
      obtain ⟨rfl, heq⟩ := heq
      have hds := h.zero_alone rfl
      rw [List.cons.injEq] at hds
      obtain ⟨-, rfl⟩ := hds
      rw [List.nil_append] at heq
      subst heq
      rw [if_neg (by rw [hrest c rfl]; exact Bool.false_ne_true)]
  · exact hsome

theorem fractionDigits_append {o : Option (List Char)} {text rest : List Char} (h : Places o text)
    (hdigit : EndsDigits rest) (hpoint : rest.head? ≠ some '.') :
    fractionDigits (text ++ rest) = .ok (o, rest) := by
  cases h with
  | none =>
    cases rest with
    | nil => rfl
    | cons c rest =>
      rw [List.nil_append, fractionDigits]
      rintro rest' heq
      rw [List.cons.injEq] at heq
      exact hpoint (by rw [heq.1]; rfl)
  | some hds hne =>
    rw [List.cons_append, fractionDigits, someDigits_append hds hne hdigit]
    rfl

theorem exponentValue_append {o : Option ℤ} {text rest : List Char} (h : Power o text)
    (hrest : Ends rest) : exponentValue (text ++ rest) = .ok (o, rest) := by
  have hdigits : ∀ n : ℕ, someDigits (digitsOf n ++ rest) = .ok (digitsOf n, rest) := fun n =>
    someDigits_append (leading_digitsOf n).digits (leading_digitsOf n).ne_nil hrest.endsDigits
  cases h with
  | none =>
    cases rest with
    | nil => rfl
    | cons c rest =>
      obtain ⟨-, -, he, hE⟩ := hrest c rfl
      simp only [List.nil_append, exponentValue, he, hE, decide_false, Bool.or_false,
        Bool.false_eq_true, if_false]
  | up n =>
    simp only [List.cons_append, exponentValue, decide_true, Bool.true_or, if_true, hdigits n]
    exact congrArg (fun k : ℕ => Except.ok (some (k : ℤ), rest)) (digitsValue_digitsOf n)
  | down n =>
    simp only [List.cons_append, exponentValue, decide_true, Bool.true_or, if_true, hdigits n]
    exact congrArg (fun k : ℕ => Except.ok (some (-(k : ℤ)), rest)) (digitsValue_digitsOf n)

theorem Power.endsDigits {o : Option ℤ} {text rest : List Char} (h : Power o text)
    (hrest : Ends rest) : EndsDigits (text ++ rest) ∧ (text ++ rest).head? ≠ some '.' := by
  cases h with
  | none => exact ⟨hrest.endsDigits, fun heq => (hrest '.' heq).2.1 rfl⟩
  | up n => exact ⟨fun c hc => by cases hc; decide, by simp⟩
  | down n => exact ⟨fun c hc => by cases hc; decide, by simp⟩

theorem Places.endsDigits {o : Option (List Char)} {text rest : List Char} (h : Places o text)
    (hrest : EndsDigits rest) : EndsDigits (text ++ rest) := by
  cases h with
  | none => exact hrest
  | some hds hne => exact fun c hc => by cases hc; decide

/-- A numeral is read part by part. -/
theorem readNumeral_append (negative : Bool) {ds fraction power rest : List Char}
    {places : Option (List Char)} {exponent : Option ℤ} (hds : Leading ds)
    (hplaces : Places places fraction) (hpower : Power exponent power) (hrest : Ends rest) :
    readNumeral (signed negative (ds ++ (fraction ++ power)) ++ rest) = .ok (⟨negative,
      ⟨digitsValue (ds ++ places.getD []), exponent.getD 0 - (places.getD []).length⟩,
      places.isNone && exponent.isNone⟩, rest) := by
  obtain ⟨hdigits, hpoint⟩ := hpower.endsDigits hrest
  have hwhole := wholeDigits_append hds (hplaces.endsDigits hdigits)
  have hfraction := fractionDigits_append hplaces hdigits hpoint
  have hexponent := exponentValue_append hpower hrest
  unfold readNumeral
  cases negative with
  | true =>
    simp only [signed, if_true, List.cons_append, List.append_assoc, hwhole]
    simp only [bind, Except.bind, hfraction, hexponent]
    rfl
  | false =>
    cases ds with
    | nil => exact absurd rfl hds.ne_nil
    | cons d ds =>
      have hminus : d ≠ '-' := by
        rintro rfl
        exact absurd (hds.digits '-' List.mem_cons_self) (by decide)
      simp only [signed, Bool.false_eq_true, if_false, List.cons_append, List.append_assoc] at hwhole ⊢
      split
      · next rest' heq =>
        rw [List.cons.injEq] at heq
        exact absurd heq.1 hminus
      · simp only [hwhole, bind, Except.bind, hfraction, hexponent]
        rfl

theorem toList_toString_int (n : ℤ) :
    (toString n).toList = signed (n < 0) (digitsOf n.natAbs) := by
  rw [Int.toString_eq_repr, Int.repr_eq_if]
  by_cases hn : 0 ≤ n
  · have habs : n.toNat = n.natAbs := by omega
    rw [if_pos hn, Nat.toList_repr, habs, signed, if_neg (by simpa using hn)]
    rfl
  · have habs : (-n).toNat = n.natAbs := by omega
    rw [if_neg hn, String.toList_append, Nat.toList_repr, habs, signed, if_pos (by simpa using hn)]
    rfl

/-- A whole number is read as it is. -/
theorem readNumeral_int (n : ℤ) {rest : List Char} (hrest : Ends rest) :
    readNumeral ((toString n).toList ++ rest)
      = .ok (⟨n < 0, ⟨n.natAbs, 0⟩, true⟩, rest) := by
  have h := readNumeral_append (n < 0) (leading_digitsOf n.natAbs) .none .none hrest
  rw [toList_toString_int]
  simpa [digitsValue_digitsOf] using h

/-! ## Layouts of a decimal -/

/-- `text` is `d` without its sign, with a point or an exponent. -/
def LaidOut (d : Number) (text : List Char) : Prop :=
  ∃ ds fraction power places exponent, text = ds ++ (fraction ++ power) ∧ Leading ds ∧
    Places places fraction ∧ Power exponent power ∧
    d = ⟨digitsValue (ds ++ places.getD []), exponent.getD 0 - (places.getD []).length⟩ ∧
    (places.isNone && exponent.isNone) = false

theorem LaidOut.readNumeral {d : Number} {text rest : List Char} (h : LaidOut d text)
    (negative : Bool) (hrest : Ends rest) :
    readNumeral (signed negative text ++ rest) = .ok (⟨negative, d, false⟩, rest) := by
  obtain ⟨ds, fraction, power, places, exponent, rfl, hds, hplaces, hpower, rfl, hflag⟩ := h
  rw [readNumeral_append negative hds hplaces hpower hrest, hflag]

theorem isDigit_of_mem_zeros {n : ℕ} {c : Char} (h : c ∈ zeros n) : isDigit c = true := by
  rw [List.eq_of_mem_replicate h]
  decide

theorem places_zero : Places (some ['0']) ['.', '0'] :=
  .some (fun _ hc => isDigit_of_mem_zeros (n := 1) hc) (List.cons_ne_nil _ _)

/-- The point stands before all digits. -/
theorem laidOut_below {d : Number} {k : ℕ} (hk : d.exponent + (digitsOf d.digits).length = -k) :
    LaidOut d ('0' :: '.' :: (zeros k ++ digitsOf d.digits)) := by
  have hlead := leading_digitsOf d.digits
  have hdigits : ∀ c ∈ zeros k ++ digitsOf d.digits, isDigit c = true := by
    intro c hc
    rcases List.mem_append.mp hc with hc | hc
    · exact isDigit_of_mem_zeros hc
    · exact hlead.digits c hc
  refine ⟨['0'], '.' :: (zeros k ++ digitsOf d.digits), [], some (zeros k ++ digitsOf d.digits),
    none, by simp, leading_digitsOf 0, .some hdigits (by simp [hlead.ne_nil]), .none, ?_, rfl⟩
  have hvalue : digitsValue (['0'] ++ (zeros k ++ digitsOf d.digits)) = d.digits := by
    rw [← List.append_assoc]
    exact (digitsValue_zeros_append (k + 1) _).trans (digitsValue_digitsOf _)
  have hexponent : (0 : ℤ) - (zeros k ++ digitsOf d.digits).length = d.exponent := by
    rw [List.length_append, zeros, List.length_replicate]
    push_cast
    omega
  simp only [Option.getD_some, Option.getD_none]
  rw [hvalue, hexponent]

/-- The point stands behind all digits. -/
theorem laidOut_behind {n : ℕ} (hn : 0 < n) (k : ℕ) :
    LaidOut ⟨n * 10 ^ (k + 1), -1⟩ (digitsOf n ++ zeros k ++ ['.', '0']) := by
  have hlead := leading_digitsOf n
  have hwhole : Leading (digitsOf n ++ zeros k) := by
    refine ⟨?_, by simp [hlead.ne_nil], ?_⟩
    · intro c hc
      rcases List.mem_append.mp hc with hc | hc
      · exact hlead.digits c hc
      · exact isDigit_of_mem_zeros hc
    · intro hhead
      rw [List.head?_append_of_ne_nil _ hlead.ne_nil] at hhead
      exact absurd hhead (head_digitsOf_ne_zero hn)
  refine ⟨digitsOf n ++ zeros k, ['.', '0'], [], some ['0'], none, by simp, hwhole,
    places_zero, .none, ?_, rfl⟩
  have hvalue : digitsValue (digitsOf n ++ zeros k ++ ['0']) = n * 10 ^ (k + 1) := by
    rw [List.append_assoc, show zeros k ++ ['0'] = zeros (k + 1) from List.replicate_succ'.symm,
      digitsValue_append_zeros, digitsValue_digitsOf]
  simp only [Option.getD_some, Option.getD_none]
  rw [hvalue]
  rfl

/-- The point stands between the digits. -/
theorem laidOut_between {d : Number} (hd : 0 < d.digits) {k : ℕ} (hpos : 0 < k)
    (hlt : k < (digitsOf d.digits).length) (hk : d.exponent + (digitsOf d.digits).length = k) :
    LaidOut d ((digitsOf d.digits).take k ++ '.' :: (digitsOf d.digits).drop k) := by
  have hlead := leading_digitsOf d.digits
  have hwhole : Leading ((digitsOf d.digits).take k) := by
    refine ⟨fun c hc => hlead.digits c (List.mem_of_mem_take hc), ?_, ?_⟩
    · rw [← List.length_pos_iff, List.length_take]
      omega
    · intro hhead
      rw [List.head?_take, if_neg hpos.ne'] at hhead
      exact absurd hhead (head_digitsOf_ne_zero hd)
  have hplaces : Places (some ((digitsOf d.digits).drop k)) ('.' :: (digitsOf d.digits).drop k) := by
    refine .some (fun c hc => hlead.digits c (List.mem_of_mem_drop hc)) ?_
    rw [← List.length_pos_iff, List.length_drop]
    omega
  refine ⟨_, _, [], _, none, by rw [List.append_nil], hwhole, hplaces, .none, ?_, rfl⟩
  have hexponent : (0 : ℤ) - ((digitsOf d.digits).drop k).length = d.exponent := by
    rw [List.length_drop]
    omega
  simp only [Option.getD_some, Option.getD_none, List.take_append_drop]
  rw [digitsValue_digitsOf, hexponent]

/-- One digit stands before the point, and the power of ten behind the digits. -/
theorem laidOut_withExponent {d : Number} {power : ℤ}
    (hpower : power = d.exponent + (digitsOf d.digits).length - 1) :
    LaidOut d (withExponent "+" (digitsOf d.digits) power) := by
  have htext : ∃ text, Power (some power) ('e' :: text) ∧
      (if power < 0 then "-" else "+").toList ++ digitsOf power.natAbs = text := by
    refine ⟨_, ?_, rfl⟩
    by_cases hneg : power < 0
    · obtain ⟨n, rfl⟩ : ∃ n : ℕ, power = -n := ⟨power.natAbs, by omega⟩
      rw [if_pos hneg, Int.natAbs_neg, Int.natAbs_natCast]
      exact .down n
    · obtain ⟨n, rfl⟩ : ∃ n : ℕ, power = n := ⟨power.natAbs, by omega⟩
      rw [if_neg hneg, Int.natAbs_natCast]
      exact .up n
  obtain ⟨text, hpow, htext⟩ := htext
  have hlead := leading_digitsOf d.digits
  have hvalue := digitsValue_digitsOf d.digits
  unfold withExponent
  simp only [htext]
  generalize digitsOf d.digits = ds at *
  match ds, hlead, hvalue, hpower with
  | [], hlead, _, _ => exact absurd rfl hlead.ne_nil
  | [c], hlead, hvalue, hpower =>
    refine ⟨[c], [], 'e' :: text, none, some power, rfl, hlead, .none, hpow, ?_, rfl⟩
    simp only [Option.getD_some, Option.getD_none, List.append_nil, hvalue, List.length_nil]
    rw [List.length_singleton] at hpower
    rw [hpower]
    simp
  | c :: c' :: cs, hlead, hvalue, hpower =>
    have hfirst : Leading [c] := by
      refine ⟨fun b hb => hlead.digits b ?_, List.cons_ne_nil _ _, ?_⟩
      · rw [List.mem_singleton.mp hb]
        exact List.mem_cons_self
      · intro hhead
        rw [List.head?_cons, Option.some.injEq] at hhead
        rw [hhead]
    refine ⟨[c], '.' :: c' :: cs, 'e' :: text, some (c' :: cs), some power, rfl, hfirst,
      .some (fun b hb => hlead.digits b (List.mem_cons_of_mem _ hb)) (List.cons_ne_nil _ _), hpow, ?_,
      rfl⟩
    simp only [Option.getD_some, List.singleton_append, hvalue]
    have hexponent : power - ((c' :: cs).length : ℤ) = d.exponent := by
      rw [hpower, List.length_cons]
      push_cast
      ring
    rw [hexponent]

/-- The decimal that stands in the text of another one: a number that is written out in full and has
no places gets one. -/
def asWritten (d : Number) : Number :=
  if 0 ≤ d.exponent ∧ d.exponent + (digitsOf d.digits).length ≤ 16 then
    ⟨d.digits * 10 ^ (d.exponent.toNat + 1), -1⟩
  else d

theorem value_asWritten (d : Number) : (asWritten d).value = d.value := by
  unfold asWritten
  split
  · next h =>
    obtain ⟨k, hk⟩ := Int.eq_ofNat_of_zero_le h.1
    unfold Number.value
    rw [hk, Int.toNat_natCast, pow_succ, zpow_natCast]
    push_cast
    norm_num
    ring
  · rfl

theorem layout_eq (d : Number) :
    number.layout d =
      if -5 ≤ d.exponent + (digitsOf d.digits).length - 1
        ∧ d.exponent + (digitsOf d.digits).length - 1 ≤ 15 then
        withPoint (digitsOf d.digits) (d.exponent + (digitsOf d.digits).length - 1 + 1)
      else withExponent "+" (digitsOf d.digits) (d.exponent + (digitsOf d.digits).length - 1) := by
  have hcond : ∀ p : ℤ, (decide (-5 ≤ p) && decide (p ≤ 15)) = true ↔ -5 ≤ p ∧ p ≤ 15 := by simp
  exact if_congr (hcond _) rfl rfl

theorem laidOut_layout {d : Number} (hd : 0 < d.digits) :
    LaidOut (asWritten d) (number.layout d) := by
  have hpos : 0 < (digitsOf d.digits).length := Nat.length_toDigits_pos
  rw [layout_eq]
  unfold asWritten
  by_cases hplain : -5 ≤ d.exponent + (digitsOf d.digits).length - 1
      ∧ d.exponent + (digitsOf d.digits).length - 1 ≤ 15
  · rw [if_pos hplain, sub_add_cancel]
    unfold withPoint
    by_cases hbelow : d.exponent + (digitsOf d.digits).length ≤ 0
    · rw [if_pos hbelow, if_neg (by omega)]
      exact laidOut_below (by omega)
    · rw [if_neg hbelow]
      by_cases hbehind : 0 ≤ d.exponent
      · rw [if_pos (by omega), if_pos (by omega)]
        have hk : (d.exponent + (digitsOf d.digits).length).toNat - (digitsOf d.digits).length
            = d.exponent.toNat := by omega
        rw [hk]
        exact laidOut_behind hd _
      · rw [if_neg (by omega), if_neg (by omega)]
        exact laidOut_between hd (by omega) (by omega) (by omega)
  · rw [if_neg hplain, if_neg (by omega)]
    exact laidOut_withExponent rfl

/-! ## Real numbers -/

/-- The decimal in the text of a real number. -/
def decimalOf (x : Float) : Number :=
  if (Dyadic.ofFloat x).mantissa = 0 then ⟨0, -1⟩
  else asWritten ((Dyadic.ofFloat x).shortest .toEven)

theorem toFloat_decimalOf {x : Float} (hx : x.isFinite = true) :
    toFloat (isNegative x) (decimalOf x) = x := by
  unfold decimalOf
  by_cases hzero : (Dyadic.ofFloat x).mantissa = 0
  · rw [if_pos hzero]
    exact toFloat_zero hx hzero (-1)
  · rw [if_neg hzero]
    refine toFloat_of_rounds hx hzero ?_
    rw [value_asWritten]
    exact (proper_ofFloat hx hzero).rounds_shortest .toEven

theorem exists_laidOut_render {x : Float} (hx : x.isFinite = true) :
    ∃ body, (number.render x).toList = signed (isNegative x) body ∧ LaidOut (decimalOf x) body := by
  refine ⟨_, String.toList_ofList, ?_⟩
  unfold decimalOf
  by_cases hzero : (Dyadic.ofFloat x).mantissa = 0
  · rw [if_pos hzero, if_pos hzero]
    exact ⟨['0'], ['.', '0'], [], some ['0'], none, rfl, leading_digitsOf 0,
      places_zero, .none, by decide, rfl⟩
  · rw [if_neg hzero, if_neg hzero]
    have hproper := proper_ofFloat hx hzero
    exact laidOut_layout (digits_pos_of_rounds hproper.canonical (hproper.rounds_shortest .toEven))

/-- A real number is read as the decimal of its text. -/
theorem readNumeral_render {x : Float} (hx : x.isFinite = true) {rest : List Char}
    (hrest : Ends rest) :
    readNumeral ((number.render x).toList ++ rest)
      = .ok (⟨isNegative x, decimalOf x, false⟩, rest) := by
  obtain ⟨body, htext, hbody⟩ := exists_laidOut_render hx
  rw [htext]
  exact hbody.readNumeral _ hrest

/-! ## First characters -/

theorem exists_head_signed {ds : List Char} (h : Leading ds) (negative : Bool) (text : List Char) :
    ∃ c rest, signed negative (ds ++ text) = c :: rest ∧ (c = '-' ∨ isDigit c = true) := by
  cases negative with
  | true => exact ⟨'-', ds ++ text, rfl, Or.inl rfl⟩
  | false =>
    cases ds with
    | nil => exact absurd rfl h.ne_nil
    | cons d ds => exact ⟨d, ds ++ text, rfl, Or.inr (h.digits d List.mem_cons_self)⟩

theorem exists_head_int (n : ℤ) :
    ∃ c rest, (toString n).toList = c :: rest ∧ (c = '-' ∨ isDigit c = true) := by
  rw [toList_toString_int, ← List.append_nil (digitsOf _)]
  exact exists_head_signed (leading_digitsOf _) _ []

theorem exists_head_render {x : Float} (hx : x.isFinite = true) :
    ∃ c rest, (number.render x).toList = c :: rest ∧ (c = '-' ∨ isDigit c = true) := by
  obtain ⟨body, htext, ds, fraction, power, -, -, rfl, hds, -⟩ := exists_laidOut_render hx
  rw [htext]
  exact exists_head_signed hds _ _

end DefectScan.Json
