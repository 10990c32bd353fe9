import DefectScan.Text.Lowercase
import DefectScan.Text.Word

/-!
# Lower case is final

What lower case makes of a text is not changed by it again, wherever its characters are put
(`Settled`), and neither are characters that are no word characters:

    c ∈ lowercase s       →  Settled c
    isWord c = false      →  Settled c
    ∀ c ∈ s, Settled c    →  lowercase s = s

Both facts rest on the tables. No small letter of a run of capitals is a capital of a run, which is
read off the bounds and strides of the runs, two by two (`isApart`). And every capital lies in a range
of word characters, which is found by one pass over the two sorted tables (`coversAll`).
-/

namespace DefectScan.Text

/-! ## Runs of capitals -/

namespace CaseRun

/-- The code point is that of a capital of the run. -/
structure Holds (r : CaseRun) (c : Nat) : Prop where
  first_le : r.first ≤ c
  le_last : c ≤ r.last
  onStride : (c - r.first) % r.stride = 0

/-- The small letter of a capital of the run. -/
def small (r : CaseRun) (c : Nat) : Nat := ((c : Int) + r.shift).toNat

/-- The small letters of a run lie below the capitals of another, above them, or between them. -/
def isApart (r s : CaseRun) : Bool :=
  Nat.blt (r.small r.last) s.first || Nat.blt s.last (r.small r.first)
    || ((Nat.beq (r.stride % s.stride) 0 || Nat.beq r.first r.last)
      && !Nat.beq (r.small r.first % s.stride) (s.first % s.stride))

/-- The small letters of a run are characters, and the dotted capital is none of them. -/
def isSound (r : CaseRun) : Bool :=
  decide (0 ≤ (r.first : Int) + r.shift)
    && (Nat.blt (r.small r.last) 0xD800
      || Nat.blt 0xDFFF (r.small r.first) && Nat.blt (r.small r.last) 0x110000)
    && (Nat.blt (r.small r.last) 0x130 || Nat.blt 0x130 (r.small r.first))

theorem Holds.mod_stride {r : CaseRun} {c : Nat} (h : r.Holds c) : c % r.stride = r.first % r.stride := by
  obtain ⟨k, hk⟩ := Nat.dvd_of_mod_eq_zero h.onStride
  have hc : c = r.first + r.stride * k := by
    have := h.first_le
    omega
  rw [hc, Nat.add_mul_mod_self_left]

/-- The small letters follow each other as the capitals do. -/
theorem Holds.small_eq {r : CaseRun} {c : Nat} (h : r.Holds c) (hsound : r.isSound = true) :
    r.small c = r.small r.first + (c - r.first) ∧ r.small c ≤ r.small r.last := by
  simp only [isSound, Bool.and_eq_true, decide_eq_true_eq] at hsound
  have := h.first_le
  have := h.le_last
  unfold small
  omega

theorem Holds.not_holds_small {r s : CaseRun} {c : Nat} (h : r.Holds c) (hsound : r.isSound = true)
    (hapart : r.isApart s = true) : ¬ s.Holds (r.small c) := by
  intro hs
  obtain ⟨heq, hle⟩ := h.small_eq hsound
  have hfirst := hs.first_le
  have hlast := hs.le_last
  simp only [isApart, Bool.or_eq_true, Bool.and_eq_true, Nat.blt_eq, Bool.not_eq_true',
    Nat.beq_eq] at hapart
  rcases hapart with (hbelow | habove) | ⟨hstep, hother⟩
  · omega
  · omega
  · -- the small letters are all alike modulo the stride of the capitals
    have hdvd : s.stride ∣ c - r.first := by
      rcases hstep with hstride | hsingle
      · exact Nat.dvd_trans (Nat.dvd_of_mod_eq_zero hstride) (Nat.dvd_of_mod_eq_zero h.onStride)
      · have := h.first_le
        have := h.le_last
        exact ⟨0, by omega⟩
    obtain ⟨k, hk⟩ := hdvd
    have hmod := hs.mod_stride
    rw [heq, hk, Nat.add_mul_mod_self_left] at hmod
    exact absurd hmod (Nat.ne_of_beq_eq_false hother)

theorem Holds.toNat_ofNat_small {r : CaseRun} {c : Nat} (h : r.Holds c) (hsound : r.isSound = true) :
    (Char.ofNat (r.small c)).toNat = r.small c ∧ r.small c ≠ 0x130 := by
  obtain ⟨heq, hle⟩ := h.small_eq hsound
  simp only [isSound, Bool.and_eq_true, Bool.or_eq_true, Nat.blt_eq] at hsound
  obtain ⟨⟨-, hchar⟩, hdotted⟩ := hsound
  have hvalid : (r.small c).isValidChar := by
    unfold Nat.isValidChar
    omega
  refine ⟨?_, by omega⟩
  rw [Char.ofNat, dif_pos hvalid]
  rfl

end CaseRun

theorem lowerRuns_apart : (lowerRuns.all fun r => lowerRuns.all r.isApart) = true := by
  decide +kernel

theorem lowerRuns_sound : lowerRuns.all CaseRun.isSound = true := by
  decide +kernel

/-- A code point stays as it is, or it is a capital of a run. -/
theorem lowerCode_cases (c : Nat) (runs : List CaseRun) :
    lowerCode c runs = c ∨ ∃ r ∈ runs, r.Holds c ∧ lowerCode c runs = r.small c := by
  induction runs with
  | nil => exact .inl rfl
  | cons r rest ih =>
    rw [lowerCode]
    by_cases hfirst : c < r.first
    · exact .inl (if_pos hfirst)
    · rw [if_neg hfirst]
      by_cases hlast : c ≤ r.last
      · rw [if_pos hlast]
        by_cases hstride : (c - r.first) % r.stride = 0
        · exact .inr ⟨r, List.mem_cons_self, ⟨by omega, hlast, hstride⟩, if_pos hstride⟩
        · exact .inl (if_neg hstride)
      · rw [if_neg hlast]
        rcases ih with h | ⟨s, hs, hholds, h⟩
        · exact .inl h
        · exact .inr ⟨s, List.mem_cons_of_mem r hs, hholds, h⟩

/-! ## Settled characters -/

/-- Lower case leaves the character as it is, wherever it stands. -/
structure Settled (c : Char) : Prop where
  lowerChar_eq : lowerChar c = [c]
  ne_sigma : c ≠ capitalSigma

theorem settled_of_lowerCode {c : Char} (hdotted : c.toNat ≠ 0x130)
    (h : lowerCode c.toNat lowerRuns = c.toNat) : Settled c := by
  constructor
  · rw [lowerChar, if_neg hdotted, h, charOfCode, Char.ofNat_toNat]
  · rintro rfl
    exact absurd h (by decide)

theorem settled_of_mem_lowerChar {c d : Char} (hd : d ∈ lowerChar c) : Settled d := by
  by_cases hdotted : c.toNat = 0x130
  · rw [lowerChar, if_pos hdotted] at hd
    simp only [List.mem_cons, List.not_mem_nil, or_false] at hd
    rcases hd with rfl | rfl
    · exact settled_of_lowerCode (by decide) (by decide)
    · exact settled_of_lowerCode (by decide) (by decide)
  · rw [lowerChar, if_neg hdotted, List.mem_singleton, charOfCode] at hd
    rcases lowerCode_cases c.toNat lowerRuns with h | ⟨r, hr, hholds, h⟩
    · rw [h, Char.ofNat_toNat] at hd
      rw [hd]
      exact settled_of_lowerCode hdotted h
    · -- a small letter is a capital of no run
      have hsound := List.all_eq_true.mp lowerRuns_sound r hr
      obtain ⟨hnat, hne⟩ := hholds.toNat_ofNat_small hsound
      rw [h] at hd
      rw [← hd] at hnat
      refine settled_of_lowerCode (hnat ▸ hne) ?_
      rcases lowerCode_cases d.toNat lowerRuns with hfixed | ⟨s, hs, hagain, -⟩
      · exact hfixed
      · have hapart := List.all_eq_true.mp (List.all_eq_true.mp lowerRuns_apart r hr) s hs
        rw [hnat] at hagain
        exact absurd hagain (hholds.not_holds_small hsound hapart)

theorem settled_of_mem_lowerFrom {before s : List Char} {d : Char} (h : d ∈ lowerFrom before s) :
    Settled d := by
  induction s generalizing before with
  | nil => cases h
  | cons c rest ih =>
    rw [lowerFrom] at h
    by_cases hsigma : c = capitalSigma
    · rw [if_pos hsigma] at h
      rcases List.mem_cons.mp h with rfl | h
      · split
        · exact settled_of_lowerCode (by decide) (by decide)
        · exact settled_of_lowerCode (by decide) (by decide)
      · exact ih h
    · rw [if_neg hsigma] at h
      rcases List.mem_append.mp h with h | h
      · exact settled_of_mem_lowerChar h
      · exact ih h

theorem lowerFrom_of_settled {s : List Char} (h : ∀ c ∈ s, Settled c) (before : List Char) :
    lowerFrom before s = s := by
  induction s generalizing before with
  | nil => rfl
  | cons c rest ih =>
    have hc := h c List.mem_cons_self
    rw [lowerFrom, if_neg hc.ne_sigma, hc.lowerChar_eq,
      ih fun d hd => h d (List.mem_cons_of_mem c hd)]
    rfl

theorem lowercase_of_settled {s : List Char} (h : ∀ c ∈ s, Settled c) : lowercase s = s :=
  lowerFrom_of_settled h []

/-! ## Capitals are word characters -/

/-- The capitals of a run as intervals, each with its last code point. -/
def CaseRun.intervals (r : CaseRun) : List (Nat × Nat) :=
  if r.stride = 1 then [(r.first, r.last)]
  else (List.range ((r.last - r.first) / r.stride + 1)).map fun k =>
    (r.first + r.stride * k, r.first + r.stride * k)

theorem CaseRun.Holds.mem_interval {r : CaseRun} {c : Nat} (h : r.Holds c) :
    ∃ i ∈ r.intervals, i.1 ≤ c ∧ c ≤ i.2 := by
  unfold intervals
  by_cases hstride : r.stride = 1
  · rw [if_pos hstride]
    exact ⟨_, List.mem_singleton_self _, h.first_le, h.le_last⟩
  · rw [if_neg hstride]
    have hdiv := Nat.div_add_mod (c - r.first) r.stride
    rw [h.onStride] at hdiv
    have hc : r.first + r.stride * ((c - r.first) / r.stride) = c := by
      have := h.first_le
      omega
    have hle : (c - r.first) / r.stride ≤ (r.last - r.first) / r.stride :=
      Nat.div_le_div_right (Nat.sub_le_sub_right h.le_last _)
    refine ⟨_, List.mem_map.mpr ⟨(c - r.first) / r.stride, List.mem_range.mpr (by omega), rfl⟩, ?_⟩
    rw [hc]
    exact ⟨Nat.le_refl c, Nat.le_refl c⟩

/-- Whether sorted ranges cover sorted intervals: each range takes the next ones that lie in it. -/
def coversAll : List Nat → List (Nat × Nat) → Bool
  | lo :: hi :: rest, intervals =>
    rest.head?.all (Nat.ble lo)
      && coversAll rest (intervals.dropWhile fun i => Nat.ble lo i.1 && Nat.blt i.2 hi)
  | _, intervals => intervals.isEmpty

theorem head_le_of_inRanges {c : Nat} {ranges : List Nat} (h : inRanges c ranges = true) :
    ∃ lo, ranges.head? = some lo ∧ lo ≤ c := by
  cases ranges with
  | nil => cases h
  | cons lo rest =>
    refine ⟨lo, rfl, Nat.le_of_not_lt fun hlt => ?_⟩
    cases rest with
    | nil => cases h
    | cons hi rest =>
      rw [inRanges, if_pos hlt] at h
      cases h

theorem inRanges_of_coversAll {ranges : List Nat} {intervals : List (Nat × Nat)}
    (h : coversAll ranges intervals = true) {i : Nat × Nat} (hi : i ∈ intervals) {c : Nat}
    (hlo : i.1 ≤ c) (hhi : c ≤ i.2) : inRanges c ranges = true := by
  induction ranges, intervals using coversAll.induct with
  | case1 lo hi' rest intervals ih =>
    rw [coversAll, Bool.and_eq_true] at h
    obtain ⟨hsorted, h⟩ := h
    rw [inRanges]
    rw [← List.takeWhile_append_dropWhile (p := fun i => Nat.ble lo i.1 && Nat.blt i.2 hi')
      (l := intervals), List.mem_append] at hi
    rcases hi with hi | hi
    · have hin := List.all_eq_true.mp (List.all_takeWhile ..) i hi
      simp only [Bool.and_eq_true, Nat.ble_eq, Nat.blt_eq] at hin
      rw [if_neg (by omega), Bool.or_eq_true, decide_eq_true_eq]
      exact .inl (by omega)
    · have hrest := ih h hi
      obtain ⟨next, hnext, hle⟩ := head_le_of_inRanges hrest
      rw [hnext, Option.all_some, Nat.ble_eq] at hsorted
      rw [if_neg (by omega), hrest, Bool.or_true]
  | case2 ranges intervals hshort =>
    rw [coversAll] at h
    · rw [List.isEmpty_iff] at h
      rw [h] at hi
      cases hi
    · exact hshort

theorem wordRanges_cover : coversAll wordRanges (lowerRuns.flatMap CaseRun.intervals) = true := by
  decide +kernel

/-- What is no word character has no case. -/
theorem settled_of_not_isWord {c : Char} (h : isWord c = false) : Settled c := by
  refine settled_of_lowerCode ?_ ?_
  · intro hdotted
    rw [isWord, hdotted] at h
    exact absurd h (by decide)
  · rcases lowerCode_cases c.toNat lowerRuns with hfixed | ⟨r, hr, hholds, -⟩
    · exact hfixed
    · obtain ⟨i, hi, hlo, hhi⟩ := hholds.mem_interval
      have hword := inRanges_of_coversAll wordRanges_cover
        (List.mem_flatMap.mpr ⟨r, hr, hi⟩) hlo hhi
      rw [isWord, hword] at h
      cases h

end DefectScan.Text
