import DefectScan.Proofs.NumberText
import DefectScan.Toml.Document
import DefectScan.Toml.Written

/-!
# The text of values in TOML

What is written for a value is read as this value, up to the end of its line (`Denotes`):

    value? (text ++ '\n' :: rest) = some (v, '\n' :: rest)

for booleans, for whole numbers as large as the format has them and for all finite real numbers. A real
number is written out without an exponent, a whole one with `.0` behind it, and is read bit for bit.
-/

namespace DefectScan.Toml

open Decimal Json

/-- A text that is read as a value, up to the end of its line. -/
structure Denotes (text : List Char) (v : ConfigValue) : Prop where
  start : ∀ c ∈ text.head?, isSpace c = false
  read : ∀ fuel rest, value? (fuel + 1) (text ++ '\n' :: rest) = some (v, '\n' :: rest)

/-! ## Words -/

theorem splitWord_append {word : List Char} (h : ∀ c ∈ word, isWordChar c = true) (rest : List Char) :
    splitWord (word ++ '\n' :: rest) = (word, '\n' :: rest) := by
  have hend : isWordChar '\n' = false := by decide
  have htake : (word ++ '\n' :: rest).takeWhile isWordChar = word := by
    rw [List.takeWhile_append_of_pos h, List.takeWhile_cons_of_neg (by simp [hend]), List.append_nil]
  have hdrop : (word ++ '\n' :: rest).dropWhile isWordChar = '\n' :: rest := by
    rw [List.dropWhile_append_of_pos h, List.dropWhile_cons_of_neg (by simp [hend])]
  unfold splitWord
  simp only [htake, hdrop]
  split
  · next heq => exact absurd (List.cons.inj heq).1 (by decide)
  · rfl

/-- Two characters, one in a class and one not. -/
theorem ne_of_class {p : Char → Bool} {c x : Char} (h : p c = true) (hx : p x = false) : c ≠ x := by
  rintro rfl
  rw [h] at hx
  cases hx

theorem isSpace_of_ne {c : Char} (hblank : c ≠ ' ') (htab : c ≠ '\t') : isSpace c = false := by
  simp [isSpace, hblank, htab]

/-- A word is read by itself. -/
theorem denotes_word {word : List Char} {v : ConfigValue} (hword : ∀ c ∈ word, isWordChar c = true)
    (h : wordValue? word = some v) : Denotes word v := by
  cases word with
  | nil => cases h
  | cons c word =>
    have hne {x : Char} (hx : isWordChar x = false) : c ≠ x :=
      ne_of_class (hword c List.mem_cons_self) hx
    refine ⟨?_, fun fuel rest => ?_⟩
    · intro c' hc'
      cases hc'
      exact isSpace_of_ne (hne (by decide)) (hne (by decide))
    · have hquote : ¬ (decide (c = '"') || decide (c = '\x27')) = true := by
        have hdouble : c ≠ '"' := hne (by decide)
        have hsingle : c ≠ '\x27' := hne (by decide)
        simp [hdouble, hsingle]
      rw [List.cons_append, value?]
      · rw [if_neg hquote, ← List.cons_append, splitWord_append hword]
        simp only [h, Option.map_some]
      · exact hne (by decide)
      · exact hne (by decide)

theorem denotes_boolText (b : Bool) : Denotes (boolText b) (.bool b) := by
  cases b with
  | true => exact denotes_word (by simp [boolText, isWordChar, isDigit]) rfl
  | false => exact denotes_word (by simp [boolText, isWordChar, isDigit]) rfl

/-! ## Whole numbers -/

/-- The characters of a number. -/
def isNumberChar (c : Char) : Bool := isDigit c || c = '.' || c = 'e' || c = '+' || c = '-'

theorem isWordChar_of_isNumberChar {c : Char} (h : isNumberChar c = true) : isWordChar c = true := by
  simp only [isNumberChar, Bool.or_eq_true, decide_eq_true_eq] at h
  rcases h with (((h | rfl) | rfl) | rfl) | rfl
  · simp [isWordChar, h]
  all_goals decide

theorem isNumberChar_of_isDigit {c : Char} (h : isDigit c = true) : isNumberChar c = true := by
  simp [isNumberChar, h]

theorem ungroup?_digits {ds : List Char} (hds : ∀ c ∈ ds, isDigit c = true) (hne : ds ≠ []) :
    ungroup? isDigit ds = some ds := by
  have hunderscore : isDigit '_' = false := by decide
  induction ds with
  | nil => exact absurd rfl hne
  | cons c ds ih =>
    rw [List.forall_mem_cons] at hds
    cases ds with
    | nil => rw [ungroup?, if_pos hds.1]
    | cons d ds =>
      rw [ungroup?, if_pos hds.1, ih hds.2 (List.cons_ne_nil d ds), Option.map_some]
      · simp
      · rintro rest heq
        rw [← (List.cons.inj heq).1, hds.2 d List.mem_cons_self] at hunderscore
        cases hunderscore

theorem isDigit_or_underscore_of_ungroup? {word ds : List Char} (h : ungroup? isDigit word = some ds) :
    ∀ c ∈ word, isDigit c = true ∨ c = '_' := by
  fun_induction ungroup? isDigit word generalizing ds with
  | case1 => cases h
  | case2 c hc => simp [hc]
  | case3 => cases h
  | case4 c rest hc ih =>
    obtain ⟨ds', hds', -⟩ := Option.map_eq_some_iff.mp h
    simp only [List.forall_mem_cons, hc, true_or, or_true, true_and]
    exact ih hds'
  | case5 => cases h
  | case6 c rest _ _ hc ih =>
    obtain ⟨ds', hds', -⟩ := Option.map_eq_some_iff.mp h
    simp only [List.forall_mem_cons, hc, true_or, true_and]
    exact ih hds'
  | case7 => cases h

theorem wholeDigits?_leading {ds : List Char} (h : Leading ds) : wholeDigits? ds = some ds := by
  rw [wholeDigits?, ungroup?_digits h.digits h.ne_nil]
  have hzero : ¬ (decide (1 < ds.length) && decide (ds.head? = some '0')) = true := by
    simp only [Bool.and_eq_true, decide_eq_true_eq, not_and]
    intro hlength hhead
    rw [h.zero_alone hhead] at hlength
    exact absurd hlength (by decide)
  exact if_neg hzero

theorem splitSign_signed {ds : List Char} (h : Leading ds) (negative : Bool) (rest : List Char) :
    splitSign (signed negative (ds ++ rest)) = (negative, ds ++ rest) := by
  cases negative with
  | true => rfl
  | false =>
    cases ds with
    | nil => exact absurd rfl h.ne_nil
    | cons d ds =>
      have hne {x : Char} (hx : isDigit x = false) : d ≠ x :=
        ne_of_class (h.digits d List.mem_cons_self) hx
      rw [signed, if_neg Bool.false_ne_true, List.cons_append, splitSign]
      · exact fun rest heq => hne (by decide) (List.cons.inj heq).1
      · exact fun rest heq => hne (by decide) (List.cons.inj heq).1

theorem inRange?_natCast {n : Nat} (h : n ≤ maxInteger) : inRange? n = some (.int n) := by
  have hbound : Nat.pow 2 63 = 9223372036854775808 := rfl
  rw [maxInteger, hbound] at h
  rw [inRange?, hbound, if_pos]
  simp only [Bool.and_eq_true, decide_eq_true_eq]
  omega

/-- No letter says that a number is written to another base. -/
theorem integer?_eq {word : List Char} (h : ∀ c ∈ word, isNumberChar c = true) :
    integer? word = (wholeDigits? (splitSign word).2).bind fun ds =>
      inRange? (if (splitSign word).1 then -digitsValue ds else digitsValue ds) := by
  unfold integer?
  split
  · exact absurd (h 'x' (by simp)) (by decide)
  · exact absurd (h 'o' (by simp)) (by decide)
  · exact absurd (h 'b' (by simp)) (by decide)
  · rfl

theorem wordValue?_of_integer? {word : List Char} {v : ConfigValue} (h : integer? word = some v) :
    wordValue? word = some v := by
  unfold wordValue?
  split
  · cases h
  · cases h
  · rw [h]

theorem denotes_integer {n : Nat} {text : List Char} (h : integerText? n = some text) :
    Denotes text (.int n) := by
  rw [integerText?] at h
  split at h
  · next hn =>
    have hlead := leading_digitsOf n
    have htext : text = digitsOf n := by
      rw [← Option.some_inj.mp h]
      exact Nat.toList_repr
    have hchars : ∀ c ∈ digitsOf n, isNumberChar c = true :=
      fun c hc => isNumberChar_of_isDigit (hlead.digits c hc)
    have hsign := splitSign_signed hlead false []
    rw [List.append_nil, signed, if_neg Bool.false_ne_true] at hsign
    have hinteger : integer? (digitsOf n) = some (.int n) := by
      rw [integer?_eq hchars, hsign, wholeDigits?_leading hlead, Option.bind_some, digitsValue_digitsOf]
      exact inRange?_natCast hn
    rw [htext]
    exact denotes_word (fun c hc => isWordChar_of_isNumberChar (hchars c hc))
      (wordValue?_of_integer? hinteger)
  · cases h

/-! ## Real numbers -/

theorem wordValue?_of_real? {word : List Char} {v : ConfigValue} (hinteger : integer? word = none)
    (hreal : real? word = some v) : wordValue? word = some v := by
  unfold wordValue?
  split
  · cases hreal
  · cases hreal
  · rw [hinteger, hreal]

section
variable {places : Option (List Char)} {exponent : Option ℤ} {ds fraction power : List Char}

theorem isNumberChar_of_mem_power (h : Power exponent power) : ∀ c ∈ power, isNumberChar c = true := by
  have hdigits (n : ℕ) : ∀ c ∈ digitsOf n, isNumberChar c = true :=
    fun c hc => isNumberChar_of_isDigit ((leading_digitsOf n).digits c hc)
  cases h with
  | none => simp
  | up n =>
    simp only [List.forall_mem_cons]
    exact ⟨by decide, by decide, hdigits n⟩
  | down n =>
    simp only [List.forall_mem_cons]
    exact ⟨by decide, by decide, hdigits n⟩

theorem isNumberChar_of_mem_places (h : Places places fraction) : ∀ c ∈ fraction, isNumberChar c = true := by
  cases h with
  | none => simp
  | some hds =>
    simp only [List.forall_mem_cons]
    exact ⟨by decide, fun c hc => isNumberChar_of_isDigit (hds c hc)⟩

/-- Behind the whole digits comes a point or the mark of the exponent. -/
theorem exists_mark (hplaces : Places places fraction) (hpower : Power exponent power)
    (hflag : (places.isNone && exponent.isNone) = false) :
    ∃ mark rest, fraction ++ power = mark :: rest ∧ (mark = '.' ∨ mark = 'e') := by
  cases hplaces with
  | some => exact ⟨_, _, rfl, .inl rfl⟩
  | none =>
    cases hpower with
    | none => cases hflag
    | up n => exact ⟨_, _, rfl, .inr rfl⟩
    | down n => exact ⟨_, _, rfl, .inr rfl⟩

theorem fraction?_append (hplaces : Places places fraction) (hpower : Power exponent power) :
    fraction? (fraction ++ power) = some (places.getD [], power) := by
  have hmark : isExponentMark 'e' = true := by decide
  cases hplaces with
  | none =>
    cases hpower with
    | none => rfl
    | up n => rfl
    | down n => rfl
  | @some ds hds =>
    have hdigits : ∀ c ∈ ds, (!isExponentMark c) = true := by
      intro c hc
      have hdigit := hds c hc
      simp only [isExponentMark, Bool.not_eq_true', Bool.or_eq_false_iff, decide_eq_false_iff_not]
      constructor <;> rintro rfl <;> exact absurd hdigit (by decide)
    have htake : (ds ++ power).takeWhile (fun c => !isExponentMark c) = ds := by
      rw [List.takeWhile_append_of_pos hdigits]
      cases hpower <;> simp [hmark]
    have hdrop : (ds ++ power).dropWhile (fun c => !isExponentMark c) = power := by
      rw [List.dropWhile_append_of_pos hdigits]
      cases hpower <;> simp [hmark]
    rw [List.cons_append, fraction?, htake, hdrop, ungroup?_digits hds ‹_›]
    rfl

theorem exponent?_power (h : Power exponent power) : exponent? power = some (exponent.getD 0) := by
  have hdigits (n : ℕ) : ungroup? isDigit (digitsOf n) = some (digitsOf n) :=
    ungroup?_digits (leading_digitsOf n).digits (leading_digitsOf n).ne_nil
  cases h with
  | none => rfl
  | up n =>
    simp only [exponent?, splitSign, hdigits, digitsValue_digitsOf, Option.bind_eq_bind, Option.bind_some]
    rfl
  | down n =>
    simp only [exponent?, splitSign, hdigits, digitsValue_digitsOf, Option.bind_eq_bind, Option.bind_some]
    rfl

theorem special?_leading (hds : Leading ds) (rest : List Char) : special? (ds ++ rest) = none := by
  cases ds with
  | nil => exact absurd rfl hds.ne_nil
  | cons d ds =>
    have hdigit := hds.digits d List.mem_cons_self
    unfold special?
    split
    · next heq => exact absurd ((List.cons.inj heq).1 ▸ hdigit) (by decide)
    · next heq => exact absurd ((List.cons.inj heq).1 ▸ hdigit) (by decide)
    · rfl

end

/-- A decimal in any layout is read as a number, unless it is too large. -/
theorem real?_of_laidOut {d : Number} {text : List Char} (h : LaidOut d text) {negative : Bool}
    (hfinite : (toFloat negative d).isInf = false) :
    real? (signed negative text) = some (.real (toFloat negative d)) := by
  obtain ⟨ds, fraction, power, places, exponent, rfl, hds, hplaces, hpower, rfl, hflag⟩ := h
  obtain ⟨mark, rest, hmark, hchar⟩ := exists_mark hplaces hpower hflag
  have hmarked : (decide (mark = '.') || isExponentMark mark) = true := by
    rcases hchar with rfl | rfl <;> decide
  have hdigits : ∀ c ∈ ds, (!(decide (c = '.') || isExponentMark c)) = true := by
    intro c hc
    have hdigit := hds.digits c hc
    simp only [isExponentMark, Bool.not_eq_true', Bool.or_eq_false_iff, decide_eq_false_iff_not]
    refine ⟨?_, ?_, ?_⟩ <;> rintro rfl <;> exact absurd hdigit (by decide)
  have htake : (ds ++ (fraction ++ power)).takeWhile
      (fun c => !(decide (c = '.') || isExponentMark c)) = ds := by
    rw [List.takeWhile_append_of_pos hdigits, hmark, List.takeWhile_cons_of_neg (by simp [hmarked]),
      List.append_nil]
  have hdrop : (ds ++ (fraction ++ power)).dropWhile
      (fun c => !(decide (c = '.') || isExponentMark c)) = fraction ++ power := by
    rw [List.dropWhile_append_of_pos hdigits, hmark, List.dropWhile_cons_of_neg (by simp [hmarked])]
  have hsome : ¬ (fraction ++ power).isEmpty = true := by simp [hmark]
  rw [real?, splitSign_signed hds negative]
  simp only [special?_leading hds, htake, hdrop, hsome, wholeDigits?_leading hds, Option.bind_eq_bind,
    Option.bind_some, fraction?_append hplaces hpower, exponent?_power hpower]
  rw [if_neg Bool.false_ne_true, hfinite, if_neg Bool.false_ne_true]
  rfl

theorem isNumberChar_of_laidOut {d : Number} {text : List Char} (h : LaidOut d text) (negative : Bool) :
    ∀ c ∈ signed negative text, isNumberChar c = true := by
  obtain ⟨ds, fraction, power, places, exponent, rfl, hds, hplaces, hpower, -, -⟩ := h
  have htext : ∀ c ∈ ds ++ (fraction ++ power), isNumberChar c = true := by
    simp only [List.forall_mem_append]
    exact ⟨fun c hc => isNumberChar_of_isDigit (hds.digits c hc), isNumberChar_of_mem_places hplaces,
      isNumberChar_of_mem_power hpower⟩
  cases negative with
  | true => exact List.forall_mem_cons.mpr ⟨by decide, htext⟩
  | false => exact htext

/-- A point or an exponent makes it no whole number. -/
theorem integer?_of_laidOut {d : Number} {text : List Char} (h : LaidOut d text) (negative : Bool) :
    integer? (signed negative text) = none := by
  rw [integer?_eq (isNumberChar_of_laidOut h negative)]
  obtain ⟨ds, fraction, power, places, exponent, rfl, hds, hplaces, hpower, -, hflag⟩ := h
  obtain ⟨mark, rest, hmark, hchar⟩ := exists_mark hplaces hpower hflag
  have hwhole : wholeDigits? (ds ++ (fraction ++ power)) = none := by
    cases hgroup : ungroup? isDigit (ds ++ (fraction ++ power)) with
    | none =>
      rw [wholeDigits?, hgroup]
      rfl
    | some digits =>
      have hdigit := isDigit_or_underscore_of_ungroup? hgroup mark (by simp [hmark])
      rcases hchar with rfl | rfl <;> exact absurd hdigit (by decide)
  rw [splitSign_signed hds, hwhole]
  rfl

theorem denotes_laidOut {d : Number} {text : List Char} (h : LaidOut d text) {negative : Bool} {x : Float}
    (hx : toFloat negative d = x) (hfinite : x.isInf = false) :
    Denotes (signed negative text) (.real x) := by
  subst hx
  exact denotes_word (fun c hc => isWordChar_of_isNumberChar (isNumberChar_of_laidOut h negative c hc))
    (wordValue?_of_real? (integer?_of_laidOut h negative) (real?_of_laidOut h hfinite))

theorem isNaN_and_isInf_of_isFinite {x : Float} (h : x.isFinite = true) :
    x.isNaN = false ∧ x.isInf = false := by
  change x.toModel.unpack.isNaN = false ∧ x.toModel.unpack.isInf = false
  change x.toModel.unpack.isFinite = true at h
  cases hx : x.toModel.unpack <;> simp_all [Float.Model.UnpackedFloat.isFinite,
    Float.Model.UnpackedFloat.isNaN, Float.Model.UnpackedFloat.isInf]

theorem value_behind (n k : ℕ) : Number.value ⟨n * 10 ^ (k + 1), -1⟩ = Number.value ⟨n, k⟩ := by
  unfold Number.value
  rw [zpow_natCast, pow_succ]
  push_cast
  norm_num
  ring

theorem toList_plain {x : Float} (h : x.isFinite = true) :
    (plain x).toList = signed (isNegative x)
      (if (Dyadic.ofFloat x).mantissa = 0 then ['0']
        else if 0 ≤ ((Dyadic.ofFloat x).shortest .up).exponent then
          digitsOf ((Dyadic.ofFloat x).shortest .up).digits
            ++ zeros ((Dyadic.ofFloat x).shortest .up).exponent.toNat
        else withPoint (digitsOf ((Dyadic.ofFloat x).shortest .up).digits)
          ((digitsOf ((Dyadic.ofFloat x).shortest .up).digits).length
            + ((Dyadic.ofFloat x).shortest .up).exponent)) := by
  obtain ⟨hnan, hinf⟩ := isNaN_and_isInf_of_isFinite h
  have hspecial : Decimal.special? x = none := by
    rw [Decimal.special?, hnan, hinf]
    rfl
  rw [plain, hspecial]
  exact String.toList_ofList

theorem realText_eq {x : Float} (h : x.isFinite = true) :
    realText x = if '.' ∈ (plain x).toList then (plain x).toList else (plain x).toList ++ ['.', '0'] := by
  obtain ⟨hnan, hinf⟩ := isNaN_and_isInf_of_isFinite h
  simp only [realText, hnan, hinf, Bool.false_eq_true, if_false, Bool.false_or, List.contains_iff_mem]

theorem mem_signed_point {negative : Bool} {body : List Char} :
    '.' ∈ signed negative body ↔ '.' ∈ body := by
  cases negative <;> simp [signed]

theorem signed_append (negative : Bool) (body rest : List Char) :
    signed negative body ++ rest = signed negative (body ++ rest) := by
  cases negative <;> rfl

theorem not_mem_digits {ds : List Char} (h : ∀ c ∈ ds, isDigit c = true) : '.' ∉ ds :=
  fun hmem => absurd (h '.' hmem) (by decide)

/-- With its point the text of a real number is a layout of a decimal that is read as this number. -/
theorem exists_laidOut_realText {x : Float} (h : x.isFinite = true) :
    ∃ d body, realText x = signed (isNegative x) body ∧ LaidOut d body ∧
      toFloat (isNegative x) d = x := by
  have hplain := toList_plain h
  by_cases hzero : (Dyadic.ofFloat x).mantissa = 0
  · rw [if_pos hzero] at hplain
    refine ⟨⟨0, -1⟩, ['0', '.', '0'], ?_, ?_, toFloat_zero h hzero (-1)⟩
    · rw [realText_eq h, hplain, if_neg (by rw [mem_signed_point]; decide), signed_append]
      rfl
    · exact ⟨['0'], ['.', '0'], [], some ['0'], none, rfl, leading_digitsOf 0, places_zero, .none,
        by decide, rfl⟩
  · rw [if_neg hzero] at hplain
    have hproper := proper_ofFloat h hzero
    have hrounds := hproper.rounds_shortest .up
    have hpos := digits_pos_of_rounds hproper.canonical hrounds
    generalize (Dyadic.ofFloat x).shortest .up = d at hplain hrounds hpos
    have hlead := leading_digitsOf d.digits
    by_cases hwhole : 0 ≤ d.exponent
    · rw [if_pos hwhole] at hplain
      obtain ⟨k, hk⟩ := Int.eq_ofNat_of_zero_le hwhole
      rw [hk, Int.toNat_natCast] at hplain
      have hdigits : '.' ∉ digitsOf d.digits ++ zeros k := not_mem_digits fun c hc => by
        rcases List.mem_append.mp hc with hc | hc
        · exact hlead.digits c hc
        · exact isDigit_of_mem_zeros hc
      refine ⟨⟨d.digits * 10 ^ (k + 1), -1⟩, _, ?_, laidOut_behind hpos k, toFloat_of_rounds h hzero ?_⟩
      · rw [realText_eq h, hplain, if_neg (mem_signed_point.not.mpr hdigits), signed_append]
      · have hd : d = ⟨d.digits, k⟩ := by rw [← hk]
        rw [value_behind, ← hd]
        exact hrounds
    · rw [if_neg hwhole, withPoint] at hplain
      have hlength : 0 < (digitsOf d.digits).length := Nat.length_toDigits_pos
      have hlaid {body : List Char} (htext : (plain x).toList = signed (isNegative x) body)
          (hpoint : '.' ∈ body) (hbody : LaidOut d body) : ∃ d body,
          realText x = signed (isNegative x) body ∧ LaidOut d body ∧ toFloat (isNegative x) d = x := by
        refine ⟨d, body, ?_, hbody, toFloat_of_rounds h hzero hrounds⟩
        rw [realText_eq h, htext, if_pos (mem_signed_point.mpr hpoint)]
      by_cases hbelow : (digitsOf d.digits).length + d.exponent ≤ 0
      · rw [if_pos hbelow] at hplain
        exact hlaid hplain (by simp) (laidOut_below (by omega))
      · rw [if_neg hbelow, if_neg (by omega)] at hplain
        exact hlaid hplain (by simp) (laidOut_between hpos (by omega) (by omega) (by omega))

theorem denotes_realText {x : Float} (h : x.isFinite = true) : Denotes (realText x) (.real x) := by
  obtain ⟨d, body, htext, hbody, hx⟩ := exists_laidOut_realText h
  rw [htext]
  exact denotes_laidOut hbody hx (isNaN_and_isInf_of_isFinite h).2

end DefectScan.Toml
