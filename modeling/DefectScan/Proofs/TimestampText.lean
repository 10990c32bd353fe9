import DefectScan.Proofs.Calendar
import DefectScan.Proofs.NumberText
import Mathlib.Data.List.TakeWhile
import Mathlib.Tactic.IntervalCases

/-!
# The text of an instant

An instant of the years 0 to 9999 that is not a leap second is read back from its text:

    ofText? t.text = some t

Every field of the text has a fixed number of digits (`FixedWidth`), so that its number is read
whatever stands behind it; only the fraction goes on to the first character that is no digit. The
date passes the checks of the reader since it comes from the calendar (`civilFromDays_valid`).
-/

namespace DefectScan.Timestamp

open Decimal (isDigit digitsValue digitsOf zeros)
open Json (EndsDigits)

/-- An instant with a year of four digits, and not a leap second. -/
structure Plain (t : Timestamp) : Prop where
  year_nonneg : 0 ≤ (civilFromDays (t.seconds / 86400)).1
  year_le : (civilFromDays (t.seconds / 86400)).1 ≤ 9999
  nanos_lt : t.nanos < 1000000000

/-! ## Fields -/

/-- `ds` writes `n` with `width` digits. -/
structure FixedWidth (width n : ℕ) (ds : List Char) : Prop where
  length : ds.length = width
  digits : ∀ c ∈ ds, isDigit c = true
  value : digitsValue ds = n

theorem fixedWidth_padded {width n : ℕ} (hwidth : 0 < width) (hn : n < 10 ^ width) :
    FixedWidth width n (padded width n).toList := by
  have hlength : (toString n).length = (digitsOf n).length := by
    rw [← String.length_toList, Nat.toString_eq_repr, Nat.toList_repr]
    rfl
  have htext : (padded width n).toList = zeros (width - (digitsOf n).length) ++ digitsOf n := by
    show (String.ofList _ ++ toString n).toList = _
    rw [String.toList_append, String.toList_ofList, hlength, Nat.toString_eq_repr, Nat.toList_repr]
    rfl
  have hle : (digitsOf n).length ≤ width := (Nat.length_toDigits_le_iff (by norm_num) hwidth).mpr hn
  rw [htext]
  constructor
  · rw [List.length_append, zeros, List.length_replicate]
    omega
  · intro c hc
    rcases List.mem_append.mp hc with hc | hc
    · exact Json.isDigit_of_mem_zeros hc
    · exact Json.isDigit_of_mem_digitsOf hc
  · rw [Json.digitsValue_zeros_append, Json.digitsValue_digitsOf]

theorem isBlank_of_isDigit {c : Char} (h : isDigit c = true) : Text.isBlank c = false := by
  unfold isDigit at h
  rw [Bool.and_eq_true, decide_eq_true_eq, decide_eq_true_eq] at h
  have hlow : 48 ≤ c.toNat := h.1
  have hhigh : c.toNat ≤ 57 := h.2
  unfold Text.isBlank
  interval_cases c.toNat <;> decide

theorem trimLeft_cons {c : Char} (h : Text.isBlank c = false) (rest : List Char) :
    Text.trimLeft (c :: rest) = c :: rest := by
  unfold Text.trimLeft
  rw [List.dropWhile_cons, if_neg (by rw [h]; exact Bool.false_ne_true)]

namespace FixedWidth

variable {width n : ℕ} {ds : List Char}

theorem exists_cons (h : FixedWidth width n ds) (hwidth : 0 < width) :
    ∃ d ds', ds = d :: ds' ∧ isDigit d = true := by
  cases ds with
  | nil => exact absurd h.length hwidth.ne
  | cons d ds' => exact ⟨d, ds', rfl, h.digits d List.mem_cons_self⟩

theorem take_append (h : FixedWidth width n ds) (rest : List Char) :
    ((ds ++ rest).take width).takeWhile isDigit = ds := by
  rw [← h.length, List.take_left]
  exact List.takeWhile_eq_self_iff.mpr h.digits

theorem readNumber (h : FixedWidth width n ds) (hwidth : 0 < width) (rest : List Char) :
    readNumber width (ds ++ rest) = some (n, rest) := by
  obtain ⟨d, ds', rfl, -⟩ := h.exists_cons hwidth
  unfold Timestamp.readNumber
  rw [h.take_append]
  simp only [List.isEmpty_cons, Bool.false_eq_true, if_false, List.drop_left, h.value]

theorem trimLeft (h : FixedWidth width n ds) (hwidth : 0 < width) (rest : List Char) :
    Text.trimLeft (ds ++ rest) = ds ++ rest := by
  obtain ⟨d, ds', rfl, hd⟩ := h.exists_cons hwidth
  exact trimLeft_cons (isBlank_of_isDigit hd) _

theorem readField (h : FixedWidth width n ds) (hwidth : 0 < width) (rest : List Char) :
    readField width (ds ++ rest) = some (n, rest) := by
  unfold Timestamp.readField
  rw [h.trimLeft hwidth, h.readNumber hwidth]

theorem readYear (h : FixedWidth 4 n ds) (rest : List Char) :
    readYear (ds ++ rest) = some ((n : ℤ), rest) := by
  have hnumber := h.readNumber (by norm_num) rest
  have htrim := h.trimLeft (by norm_num) rest
  obtain ⟨d, ds', rfl, hd⟩ := h.exists_cons (by norm_num)
  unfold Timestamp.readYear
  rw [htrim]
  -- a digit is neither sign
  split
  · next rest' heq =>
    cases heq
    exact absurd hd (by decide)
  · next rest' heq =>
    cases heq
    exact absurd hd (by decide)
  · rw [hnumber]
    rfl

/-- The digits behind the point count from the left. -/
theorem readFraction (h : FixedWidth width n ds) (hwidth : 0 < width) (hle : width ≤ 9)
    {rest : List Char} (hrest : EndsDigits rest) :
    readFraction ('.' :: (ds ++ rest)) = some (n * 10 ^ (9 - width), rest) := by
  have hends : EndsDigits (rest.take (9 - width)) := by
    intro c hc
    rw [List.head?_take] at hc
    split at hc
    · exact absurd hc (by simp)
    · exact hrest c hc
  have htake : ((ds ++ rest).take 9).takeWhile isDigit = ds := by
    rw [List.take_append, List.take_of_length_le (by rw [h.length]; exact hle), h.length]
    exact Json.takeWhile_isDigit_append h.digits hends
  obtain ⟨d, ds', rfl, -⟩ := h.exists_cons hwidth
  have hdrop := Json.dropWhile_isDigit_append h.digits hrest
  simp only [Timestamp.readFraction, Timestamp.readNumber, htake, hdrop, List.isEmpty_cons,
    Bool.false_eq_true, if_false, h.value, h.length, Option.bind_eq_bind, Option.bind_some,
    Option.pure_def, Nat.pow_eq]

end FixedWidth

/-! ## The whole text -/

theorem readMark_cons {mark : Char} (h : Text.isBlank mark = false) (rest : List Char) :
    readMark mark (mark :: rest) = some rest := by
  unfold readMark
  rw [trimLeft_cons h]
  exact if_pos rfl

theorem readFraction_fractionText {nanos : ℕ} (h : nanos < 1000000000) {rest : List Char}
    (hrest : EndsDigits rest) (hpoint : rest.head? ≠ some '.') :
    readFraction ((fractionText nanos).toList ++ rest) = some (nanos, rest) := by
  -- the fraction is read from the digits behind the point, whichever of the three widths they have
  have hread : ∀ {width n : ℕ}, 0 < width → width ≤ 9 → n < 10 ^ width →
      n * 10 ^ (9 - width) = nanos →
      readFraction (("." ++ padded width n).toList ++ rest) = some (nanos, rest) := by
    intro width n hwidth hle hn hvalue
    rw [String.toList_append, ← hvalue]
    exact (fixedWidth_padded hwidth hn).readFraction hwidth hle hrest
  unfold fractionText
  by_cases hzero : nanos = 0
  · subst hzero
    rw [if_pos rfl]
    cases rest with
    | nil => rfl
    | cons c rest =>
      show readFraction (c :: rest) = some (0, c :: rest)
      rw [readFraction]
      rintro rest' heq
      rw [List.cons.injEq] at heq
      exact hpoint (by rw [heq.1]; rfl)
  · rw [if_neg hzero]
    by_cases hmilli : nanos % 1000000 = 0
    · rw [if_pos hmilli]
      exact hread (by norm_num) (by norm_num) (by omega) (by omega)
    · rw [if_neg hmilli]
      by_cases hmicro : nanos % 1000 = 0
      · rw [if_pos hmicro]
        exact hread (by norm_num) (by norm_num) (by omega) (by omega)
      · rw [if_neg hmicro]
        exact hread (by norm_num) (by norm_num) (by omega) (by omega)

/-- The fields of a text, with every field in its bounds. -/
structure Fields (year month day hour minute second : ℕ) : Prop where
  year_le : year ≤ 9999
  month_pos : 1 ≤ month
  month_le : month ≤ 12
  day_pos : 1 ≤ day
  day_le : day ≤ daysInMonth year month
  hour_lt : hour < 24
  minute_lt : minute < 60
  second_lt : second < 60
  civil : civilFromDays (daysFromCivil year month day) = ((year : ℤ), (month : ℤ), (day : ℤ))

/-- The instant of the fields of a text. -/
def ofFields (year month day hour minute second nanos : ℕ) : Timestamp :=
  ⟨daysFromCivil year month day * 86400 + (hour * 3600 + minute * 60 + second : ℕ), nanos⟩

namespace Fields

variable {year month day hour minute second : ℕ}

theorem inCalendar_year (h : Fields year month day hour minute second) :
    inCalendar year = true := by
  have hyear := h.year_le
  unfold inCalendar
  rw [Bool.and_eq_true, decide_eq_true_eq, decide_eq_true_eq]
  constructor <;> omega

theorem inCalendar_seconds (h : Fields year month day hour minute second) :
    inCalendar (civilFromDays ((daysFromCivil year month day * 86400
      + (hour * 3600 + minute * 60 + second : ℕ)) / 86400)).1 = true := by
  have hhour := h.hour_lt
  have hminute := h.minute_lt
  have hsecond := h.second_lt
  have hday : (daysFromCivil year month day * 86400
      + (hour * 3600 + minute * 60 + second : ℕ)) / 86400 = daysFromCivil year month day := by
    push_cast
    omega
  rw [hday, h.civil]
  exact h.inCalendar_year

theorem not_refused (h : Fields year month day hour minute second) :
    ¬ (!([] : List Char).isEmpty || !inCalendar year || decide (month < 1) || decide (12 < month)
      || decide (day < 1) || decide (daysInMonth year month < day) || decide (23 < hour)
      || decide (59 < minute) || decide (60 < second)
      || decide (86400 ≤ (0 : ℤ).natAbs)) = true := by
  obtain ⟨hyear, hmonth, hmonth', hday, hday', hhour, hminute, hsecond, -⟩ := id h
  rw [h.inCalendar_year]
  simp only [List.isEmpty_nil, Bool.not_true, Bool.false_or, Bool.or_eq_true, decide_eq_true_eq]
  omega

end Fields

/-- A text of fixed fields is read field by field. -/
theorem ofText?_of_fields {s : String} {year month day hour minute second nanos : ℕ}
    (h : Fields year month day hour minute second) {fraction : List Char}
    (hfraction : readFraction (fraction ++ ['Z']) = some (nanos, ['Z']))
    (htext : s.toList = (padded 4 year).toList ++ '-' :: ((padded 2 month).toList ++
      '-' :: ((padded 2 day).toList ++ 'T' :: ((padded 2 hour).toList ++
      ':' :: ((padded 2 minute).toList ++ ':' :: ((padded 2 second).toList ++
      (fraction ++ ['Z']))))))) :
    ofText? s = some (ofFields year month day hour minute second nanos) := by
  have hyear := h.year_le
  have hmonth := h.month_le
  have hday : day ≤ 31 := by
    have hday := h.day_le
    have hmost : daysInMonth year month ≤ 31 := by
      unfold daysInMonth
      split_ifs <;> omega
    omega
  have htwo : ∀ {n : ℕ}, n < 100 → ∀ rest,
      readField 2 ((padded 2 n).toList ++ rest) = some (n, rest) := by
    intro n hn rest
    exact (fixedWidth_padded (by norm_num) hn).readField (by norm_num) rest
  have hminus : ∀ rest, readMark '-' ('-' :: rest) = some rest := readMark_cons (by decide)
  have hcolon : ∀ rest, readMark ':' (':' :: rest) = some rest := readMark_cons (by decide)
  have hzone : readZone (Text.trimLeft ['Z']) = some (0, []) := rfl
  unfold ofText?
  -- each field is as wide as its reader takes, so that the rest is the text behind it
  rw [htext, (fixedWidth_padded (by norm_num) (by omega)).readYear]
  dsimp only [Option.bind_eq_bind, Option.bind_some]
  rw [hminus]
  dsimp only [Option.bind_some]
  rw [htwo (by omega)]
  dsimp only [Option.bind_some]
  rw [hminus]
  dsimp only [Option.bind_some]
  rw [htwo (by omega)]
  dsimp only [Option.bind_some]
  rw [if_pos (by decide), htwo (by have := h.hour_lt; omega)]
  dsimp only [Option.bind_some]
  rw [hcolon]
  dsimp only [Option.bind_some]
  rw [htwo (by have := h.minute_lt; omega)]
  dsimp only [Option.bind_some]
  rw [hcolon]
  dsimp only [Option.bind_some]
  rw [htwo (by have := h.second_lt; omega)]
  dsimp only [Option.bind_some]
  rw [hfraction]
  dsimp only [Option.bind_some]
  rw [hzone]
  dsimp only [Option.bind_some]
  rw [if_neg h.not_refused]
  simp only [h.second_lt.ne, if_false, sub_zero]
  rw [if_pos h.inCalendar_seconds]
  rfl

/-- The text of a plain instant, field by field. -/
theorem toList_text {t : Timestamp} (h : t.Plain) {year month day : ℤ}
    (hdate : civilFromDays (t.seconds / 86400) = (year, month, day)) :
    t.text.toList = (padded 4 year.toNat).toList ++ '-' :: ((padded 2 month.toNat).toList ++
      '-' :: ((padded 2 day.toNat).toList ++ 'T' ::
      ((padded 2 ((t.seconds % 86400).toNat / 3600)).toList ++
      ':' :: ((padded 2 ((t.seconds % 86400).toNat / 60 % 60)).toList ++
      ':' :: ((padded 2 ((t.seconds % 86400).toNat % 60)).toList ++
      ((fractionText t.nanos).toList ++ ['Z'])))))) := by
  have hyear : yearText year = padded 4 year.toNat := by
    have hnonneg := h.year_nonneg
    have hle := h.year_le
    rw [hdate] at hnonneg hle
    unfold yearText
    rw [if_pos (by simpa using ⟨hnonneg, hle⟩)]
  have hleap : ¬ 1000000000 ≤ t.nanos := Nat.not_le.mpr h.nanos_lt
  unfold text
  simp only [hdate, hyear, hleap, if_false, Nat.add_zero, String.toList_append, List.append_assoc,
    show "-".toList = ['-'] from rfl, show "T".toList = ['T'] from rfl,
    show ":".toList = [':'] from rfl, show "Z".toList = ['Z'] from rfl, List.cons_append,
    List.nil_append]

theorem ofText?_text {t : Timestamp} (h : t.Plain) : ofText? t.text = some t := by
  obtain ⟨year, month, day, hdate, hdays, hmonth, hmonth', hday, hday'⟩ :=
    civilFromDays_valid (t.seconds / 86400)
  have hyear : 0 ≤ year := by simpa [hdate] using h.year_nonneg
  have hyear' : year ≤ 9999 := by simpa [hdate] using h.year_le
  have hsecond : (t.seconds % 86400).toNat < 86400 := by omega
  have htext := toList_text h hdate
  obtain ⟨year, rfl⟩ := Int.eq_ofNat_of_zero_le hyear
  obtain ⟨month, rfl⟩ := Int.eq_ofNat_of_zero_le (by omega : 0 ≤ month)
  obtain ⟨day, rfl⟩ := Int.eq_ofNat_of_zero_le (by omega : 0 ≤ day)
  have hfields : Fields year month day ((t.seconds % 86400).toNat / 3600)
      ((t.seconds % 86400).toNat / 60 % 60) ((t.seconds % 86400).toNat % 60) :=
    ⟨by omega, by omega, by omega, by omega, hday', by omega, by omega, by omega,
      by rw [hdays, hdate]⟩
  have hfraction : readFraction ((fractionText t.nanos).toList ++ ['Z']) = some (t.nanos, ['Z']) :=
    readFraction_fractionText h.nanos_lt (fun c hc => by cases hc; decide) (by decide)
  rw [ofText?_of_fields hfields hfraction htext]
  have hseconds : t.seconds / 86400 * 86400 + ((t.seconds % 86400).toNat / 3600 * 3600
      + (t.seconds % 86400).toNat / 60 % 60 * 60 + (t.seconds % 86400).toNat % 60 : ℕ)
      = t.seconds := by
    omega
  unfold ofFields
  rw [hdays, hseconds]

end DefectScan.Timestamp
