import DefectScan.Proofs.CallArguments
import DefectScan.Proofs.Expressions

/-!
# The expressions of calls

The calls that can be rewritten are given by regular expressions (`copyExpression`, `readExpression`).
An argument in them is a lazy repetition of units, with blanks around it that are units as well, so a
search has many ways to match it. All end at the same place (`Run`), and what follows does not depend
on where the argument was cut (`Uniform`). So the first way decides: it is the argument without the
blanks around it.

    (copyCall f).readAt behind text = (copyExpression f).matchAt behind text
-/

namespace DefectScan.Proposal

open Pattern Text Expression

/-! ## Units -/

/-- An expression that matches in one way at most: it reads what `next` takes from a text. Each blank
is a unit, other units have no blanks at their ends, and none begins with the mark `z`. -/
structure OneWay (u : Expression) (z : Char)
    (next : List Char → Option (List Char × List Char)) : Prop where
  first_eq : ∀ {α : Type} (k : Progress → Option α) behind captured text,
    u.first k ⟨behind, captured, text⟩
      = (next text).bind fun x => k ⟨x.1.reverse ++ behind, captured, x.2⟩
  parts : ∀ {text w rest}, next text = some (w, rest) → text = w ++ rest
  solid : ∀ {text w rest}, next text = some (w, rest) →
    ∃ c cs, w = c :: cs ∧ (isBlank c = false → Trimmed w)
  blank : ∀ {c}, isBlank c = true → ∀ rest, next (c :: rest) = some ([c], rest)
  stop : ∀ rest, next (z :: rest) = none

/-- The units that stand one after another before a place where there is none. -/
inductive Run (next : List Char → Option (List Char × List Char)) (tail : List Char) :
    List Char → Prop
  | nil (h : next tail = none) : Run next tail []
  | cons {w run : List Char} (h : next (w ++ (run ++ tail)) = some (w, run ++ tail))
      (hrun : Run next tail run) : Run next tail (w ++ run)

namespace OneWay

variable {u : Expression} {z : Char} {next : List Char → Option (List Char × List Char)}

theorem mark_not_blank (hu : OneWay u z next) : isBlank z = false := by
  cases hz : isBlank z with
  | false => rfl
  | true => exact absurd (hu.blank hz []) (by simp [hu.stop])

theorem exists_run (hu : OneWay u z next) (text : List Char) :
    ∃ run tail, text = run ++ tail ∧ Run next tail run := by
  cases hnext : next text with
  | none => exact ⟨[], text, rfl, .nil hnext⟩
  | some x =>
    obtain ⟨w, rest⟩ := x
    obtain ⟨c, cs, hw, -⟩ := hu.solid hnext
    have htext := hu.parts hnext
    have hlt : rest.length < text.length := by
      rw [htext, hw, List.length_append, List.length_cons]
      omega
    obtain ⟨run, tail, rfl, hrun⟩ := hu.exists_run rest
    exact ⟨w ++ run, tail, by rw [htext, List.append_assoc], .cons (htext ▸ hnext) hrun⟩
termination_by text.length

theorem tail_not_blank (hu : OneWay u z next) {run tail : List Char} (h : Run next tail run)
    (c : Char) (hc : tail.head? = some c) : isBlank c = false := by
  induction h with
  | cons _ _ ih => exact ih
  | nil hnone =>
    obtain ⟨rest, rfl⟩ := List.head?_eq_some_iff.mp hc
    cases hblank : isBlank c with
    | false => rfl
    | true =>
      rw [hu.blank hblank] at hnone
      cases hnone

/-- A unit is one blank, or it has none at its ends and does not begin with the mark. -/
theorem unit_cases (hu : OneWay u z next) {w rest : List Char}
    (h : next (w ++ rest) = some (w, rest)) :
    (∃ c, w = [c] ∧ isBlank c = true) ∨
      ∃ c cs, w = c :: cs ∧ isBlank c = false ∧ c ≠ z ∧ Trimmed w := by
  obtain ⟨c, cs, rfl, htrimmed⟩ := hu.solid h
  cases hc : isBlank c with
  | true =>
    rw [List.cons_append, hu.blank hc] at h
    obtain ⟨hw, -⟩ := Prod.mk.inj (Option.some.inj h)
    exact .inl ⟨c, hw.symm, hc⟩
  | false =>
    refine .inr ⟨c, cs, rfl, hc, ?_, htrimmed hc⟩
    rintro rfl
    rw [List.cons_append, hu.stop] at h
    cases h

/-- A run that is not blank has a first character that is none, and this is not the mark. -/
theorem exists_not_blank (hu : OneWay u z next) {run tail : List Char} (h : Run next tail run)
    (hrun : ¬ AllBlank run) :
    ∃ w c more, run = w ++ c :: more ∧ AllBlank w ∧ isBlank c = false ∧ c ≠ z := by
  induction h with
  | nil => exact absurd (fun _ hc => nomatch hc) hrun
  | @cons w run hunit _ ih =>
    rcases hu.unit_cases hunit with ⟨c, rfl, hc⟩ | ⟨c, cs, rfl, hc, hz, -⟩
    · have hrest : ¬ AllBlank run := fun hall => hrun (List.forall_mem_cons.mpr ⟨hc, hall⟩)
      obtain ⟨v, d, more, rfl, hv, hd, hz⟩ := ih hrest
      exact ⟨c :: v, d, more, rfl, List.forall_mem_cons.mpr ⟨hc, hv⟩, hd, hz⟩
    · exact ⟨[], c, cs ++ run, rfl, fun _ hc => (nomatch hc), hc, hz⟩

/-- The blanks at the end of a run are those behind its first unit, if not all of it is blank. -/
theorem trimRight_append (hu : OneWay u z next) {w run rest : List Char}
    (h : next (w ++ rest) = some (w, rest)) (hne : ¬ AllBlank (w ++ run)) :
    trimRight (w ++ run) = w ++ trimRight run := by
  by_cases hrun : AllBlank run
  · rcases hu.unit_cases h with ⟨c, rfl, hc⟩ | ⟨c, cs, -, -, -, htrimmed⟩
    · have hall : AllBlank (c :: run) := List.forall_mem_cons.mpr ⟨hc, hrun⟩
      exact absurd hall hne
    · rw [trimRight_append_of_allBlank w hrun, htrimmed.trimRight_eq, trimRight_of_allBlank hrun,
        List.append_nil]
  · exact trimRight_append_of_not_allBlank w hrun

/-- The mark does not follow on blanks before all of a run that is not blank. -/
theorem first_mark_eq_none (hu : OneWay u z next) {run tail : List Char} (h : Run next tail run)
    (hrun : ¬ AllBlank run) {α : Type} (k : Progress → Option α) (behind : List Char)
    (captured : List (List Char)) :
    (both blanks (letter z)).first k ⟨behind, captured, run ++ tail⟩ = none := by
  obtain ⟨w, c, more, rfl, hw, hc, hz⟩ := hu.exists_not_blank h hrun
  have hhead : ∀ d, (c :: (more ++ tail)).head? = some d → isBlank d = false := by
    intro d hd
    rwa [← Option.some.inj hd]
  rw [List.append_assoc, List.cons_append, first_blanks_letter hu.mark_not_blank hw hhead]
  exact first_letter_of_ne hz _

end OneWay

/-! ## What follows an argument -/

/-- Whether there is an answer depends only on what is left to read. -/
def Uniform {α : Type} (k : Progress → Option α) : Prop :=
  ∀ s t : Progress, s.rest = t.rest → k s = none → k t = none

/-- Blanks, units as few as possible that are captured, blanks, and the mark behind the argument. -/
def argumentExpression (u : Expression) (z : Char) : Expression :=
  both blanks (both (group (both u (many false u))) (both blanks (letter z)))

section
variable {α : Type} {k : Progress → Option α} {u : Expression} {z : Char}
variable {next : List Char → Option (List Char × List Char)}

/-- Of two ways to the same place the first decides. -/
theorem Uniform.or_eq (hk : Uniform k) {s t : Progress} (h : s.rest = t.rest) :
    (k s).or (k t) = k s := by
  cases hs : k s with
  | some _ => rfl
  | none => rw [Option.none_or, hk s t h hs]

theorem Uniform.letter (hk : Uniform k) (z : Char) : Uniform ((letter z).first k) := by
  rintro ⟨behind, captured, rest⟩ ⟨behind', captured', rest'⟩ rfl hs
  rw [first_letter_eq, Option.bind_eq_none_iff] at hs ⊢
  exact fun after hafter => hk ⟨z :: behind, captured, after⟩ _ rfl (hs after hafter)

variable (hu : OneWay u z next) (hk : Uniform k)
include hu hk

/-- A lazy repetition of units, up to blanks and a mark, leaves out the blanks at its end. -/
theorem first_lazy_run {run tail : List Char} (hrun : Run next tail run)
    (done behind : List Char) (captured : List (List Char)) :
    (many false u).first (fun t => (both blanks (letter z)).first k
        (Progress.capture ⟨behind, captured, done ++ (run ++ tail)⟩ t))
        ⟨done.reverse ++ behind, captured, run ++ tail⟩
      = (letter z).first k
          ⟨(done ++ run).reverse ++ behind, captured ++ [done ++ trimRight run], tail⟩ := by
  have hz := hu.mark_not_blank
  -- what was read so far is captured, or one more unit is read
  induction hrun generalizing done with
  | nil hnone =>
    rw [first_lazy, hu.first_eq, List.nil_append, hnone, Option.bind_none, Option.or_none,
      Progress.capture_append, List.append_nil, first_both, first_blanks_of_not (hu.tail_not_blank (.nil hnone)),
      trimRight_of_allBlank (w := []) (fun _ h => nomatch h), List.append_nil]
  | @cons w run hunit hrun ih =>
    have hlonger := ih (done ++ w)
    have hw : 0 < w.length := by
      obtain ⟨c, cs, rfl, -⟩ := hu.solid hunit
      exact Nat.succ_pos _
    -- another unit is read only where the repetition cannot stop
    have hagain : again u (fun t => (both blanks (letter z)).first k
          (Progress.capture ⟨behind, captured, done ++ (w ++ run ++ tail)⟩ t))
          ⟨done.reverse ++ behind, captured, w ++ run ++ tail⟩ false
          ⟨w.reverse ++ (done.reverse ++ behind), captured, run ++ tail⟩
        = (letter z).first k ⟨(done ++ (w ++ run)).reverse ++ behind,
            captured ++ [done ++ (w ++ trimRight run)], tail⟩ := by
      rw [again, if_pos (by simp only [List.length_append]; omega)]
      simpa only [List.reverse_append, List.append_assoc] using hlonger
    rw [first_lazy, hu.first_eq, List.append_assoc w run tail, hunit, Option.bind_some,
      ← List.append_assoc w run tail, hagain, Progress.capture_append]
    by_cases hblank : AllBlank (w ++ run)
    · have hbehind : (done ++ (w ++ run)).reverse ++ behind
          = (w ++ run).reverse ++ (done.reverse ++ behind) := by
        rw [List.reverse_append, List.append_assoc]
      rw [first_blanks_letter hz hblank (hu.tail_not_blank hrun), trimRight_of_allBlank hblank,
        List.append_nil, hbehind]
      exact (hk.letter z).or_eq rfl
    · rw [hu.first_mark_eq_none (.cons hunit hrun) hblank, Option.none_or,
        hu.trimRight_append hunit hblank]

/-- What is captured from the first unit on. -/
theorem first_captured {w run tail : List Char}
    (hunit : next (w ++ (run ++ tail)) = some (w, run ++ tail)) (hrun : Run next tail run)
    (behind : List Char) (captured : List (List Char)) :
    (both (group (both u (many false u))) (both blanks (letter z))).first k
        ⟨behind, captured, w ++ (run ++ tail)⟩
      = (letter z).first k
          ⟨(w ++ run).reverse ++ behind, captured ++ [w ++ trimRight run], tail⟩ := by
  rw [first_both, first_group, first_both, hu.first_eq, hunit, Option.bind_some]
  exact first_lazy_run hu hk hrun w behind captured

/-- The first way to match an argument captures it without the blanks around it. -/
theorem first_argument {run tail : List Char} (hrun : Run next tail run) (behind : List Char)
    (captured : List (List Char)) :
    (argumentExpression u z).first k ⟨behind, captured, run ++ tail⟩
      = (argument run).bind fun d =>
          (letter z).first k ⟨run.reverse ++ behind, captured ++ [d], tail⟩ := by
  rw [argumentExpression, first_both]
  induction hrun generalizing behind with
  | nil hnone =>
    rw [List.nil_append, first_blanks_of_not (hu.tail_not_blank (.nil hnone)), first_both,
      first_group, first_both, hu.first_eq, hnone]
    rfl
  | @cons w run hunit hrun ih =>
    rw [List.append_assoc]
    have hcaptured := first_captured hu hk hunit hrun behind captured
    rcases hu.unit_cases hunit with ⟨c, rfl, hc⟩ | ⟨c, cs, hcs, hc, -, -⟩
    · -- a blank is left out if an argument can begin behind it
      rw [List.singleton_append] at hcaptured ⊢
      rw [first_blanks_cons hc, hcaptured]
      refine (congrArg (Option.or · _) (ih (c :: behind))).trans ?_
      cases hargument : argument run with
      | none =>
        have hsingle : argument [c] = some [c] :=
          argument_eq_some_iff.mpr (.blank (w := []) (fun _ h => nomatch h) hc)
        rw [argument_eq_none_iff.mp hargument, List.append_nil, hsingle]
        rfl
      | some d =>
        rw [Option.bind_some, List.singleton_append, argument_cons_of_blank hc hargument,
          Option.bind_some, List.reverse_cons, List.append_assoc]
        exact (hk.letter z).or_eq rfl
    · have hhead : ∀ d, (w ++ (run ++ tail)).head? = some d → isBlank d = false := by
        intro d hd
        rw [hcs] at hd
        rwa [← Option.some.inj hd]
      have hne : ¬ AllBlank (w ++ run) := by
        intro hall
        have hblank := hall c (by simp [hcs])
        rw [hc] at hblank
        cases hblank
      have htrim : trim (w ++ run) = w ++ trimRight run := by
        rw [trim, trimLeft, ← hu.trimRight_append hunit hne, hcs, List.cons_append,
          List.dropWhile_cons_of_neg (by simp [hc])]
      have hargument : argument (w ++ run) = some (w ++ trimRight run) := by
        unfold argument
        rw [htrim, hcs]
        rfl
      rw [first_blanks_of_not hhead, hcaptured, hargument, Option.bind_some]

theorem Uniform.argumentExpression : Uniform ((argumentExpression u z).first k) := by
  rintro ⟨behind, captured, rest⟩ ⟨behind', captured', rest'⟩ rfl hs
  obtain ⟨run, tail, rfl, hrun⟩ := hu.exists_run rest
  rw [first_argument hu hk hrun, Option.bind_eq_none_iff] at hs ⊢
  exact fun d hd =>
    hk.letter z ⟨run.reverse ++ behind, captured ++ [d], tail⟩ _ rfl (hs d hd)

end

/-! ## Two kinds of units -/

theorem ne_of_blank {c d : Char} (hc : isBlank c = true) (hd : isBlank d = false) : c ≠ d := by
  rintro rfl
  rw [hc] at hd
  cases hd

/-- One character of a class. -/
def takeChar (p : Char → Bool) : List Char → Option (List Char × List Char)
  | [] => none
  | c :: rest => if p c then some ([c], rest) else none

theorem trimmed_singleton {c : Char} (hc : isBlank c = false) : Trimmed [c] where
  first := by simp [hc]
  last := by simp [hc]

theorem oneWay_char {p : Char → Bool} {z : Char} (hblank : ∀ c, isBlank c = true → p c = true)
    (hz : p z = false) : OneWay (char p) z (takeChar p) where
  first_eq := by
    intro α k behind captured text
    cases text with
    | nil => rfl
    | cons c rest =>
      rw [first_char_cons, takeChar]
      split <;> rfl
  parts := by
    intro text w rest h
    cases text with
    | nil => cases h
    | cons c text =>
      obtain ⟨-, heq⟩ := Option.ite_none_right_eq_some.mp h
      cases heq
      rfl
  solid := by
    intro text w rest h
    cases text with
    | nil => cases h
    | cons c text =>
      obtain ⟨-, heq⟩ := Option.ite_none_right_eq_some.mp h
      cases heq
      exact ⟨c, [], rfl, trimmed_singleton⟩
  blank := fun hc rest => if_pos (hblank _ hc)
  stop := fun rest => if_neg (by simp [hz])

theorem run_takeWhile (p : Char → Bool) (text : List Char) :
    Run (takeChar p) (text.dropWhile p) (text.takeWhile p) := by
  induction text with
  | nil => exact .nil rfl
  | cons c text ih =>
    cases hc : p c with
    | true =>
      rw [List.takeWhile_cons_of_pos hc, List.dropWhile_cons_of_pos hc]
      exact .cons (w := [c]) (if_pos hc) ih
    | false =>
      rw [List.takeWhile_cons_of_neg (by simp [hc]), List.dropWhile_cons_of_neg (by simp [hc])]
      exact .nil (if_neg (by simp [hc]))

def isNoParen (c : Char) : Bool := c ≠ '(' && c ≠ ')'

theorem isNoParen_iff {c : Char} : isNoParen c = true ↔ c ≠ '(' ∧ c ≠ ')' := by
  simp [isNoParen]

theorem isNoParen_of_blank (c : Char) (hc : isBlank c = true) : isNoParen c = true :=
  isNoParen_iff.mpr ⟨ne_of_blank hc (by decide), ne_of_blank hc (by decide)⟩

/-- A character that is no parenthesis, or a pair of parentheses with none between them. -/
def sourceUnit : Expression :=
  either (char isNoParen) (both (letter '(') (both (many true (char isNoParen)) (letter ')')))

def takeUnit : List Char → Option (List Char × List Char)
  | [] => none
  | c :: rest =>
    if isNoParen c then some ([c], rest)
    else if c = '(' then
      (literal [')'] (rest.dropWhile isNoParen)).map fun after =>
        ('(' :: (rest.takeWhile isNoParen ++ [')']), after)
    else none

/-- What a unit can be. -/
theorem takeUnit_eq_some_iff {text w rest : List Char} : takeUnit text = some (w, rest) ↔
    (∃ c, (c ≠ '(' ∧ c ≠ ')') ∧ w = [c] ∧ text = c :: rest) ∨
      ∃ group, NoParens group ∧ w = '(' :: (group ++ [')']) ∧
        text = '(' :: (group ++ ')' :: rest) := by
  constructor
  · intro h
    cases text with
    | nil => cases h
    | cons c text =>
      rw [takeUnit] at h
      split at h
      · next hc =>
        cases h
        exact .inl ⟨c, isNoParen_iff.mp hc, rfl, rfl⟩
      · split at h
        · next hopen =>
          obtain ⟨after, hclose, heq⟩ := Option.map_eq_some_iff.mp h
          cases heq
          obtain ⟨group, tail, rfl, htake, hdrop, hgroup⟩ := exists_span (p := isNoParen) text
          rw [hdrop, literal_eq_some_iff] at hclose
          rw [htake, hopen, hclose]
          exact .inr ⟨group, fun c hc => isNoParen_iff.mp (hgroup c hc), rfl, rfl⟩
        · cases h
  · rintro (⟨c, hc, rfl, rfl⟩ | ⟨group, hgroup, rfl, rfl⟩)
    · exact if_pos (isNoParen_iff.mpr hc)
    · obtain ⟨htake, hdrop⟩ := span_eq (p := isNoParen) (c := ')')
        (fun c hc => isNoParen_iff.mpr (hgroup c hc)) (by decide) rest
      rw [takeUnit, if_neg (by decide), if_pos rfl, htake, hdrop]
      rfl

theorem oneWay_sourceUnit : OneWay sourceUnit ')' takeUnit where
  first_eq := by
    intro α k behind captured text
    rw [sourceUnit, first_either, first_both]
    cases text with
    | nil => rfl
    | cons c rest =>
      rw [first_char_cons, takeUnit]
      by_cases hc : isNoParen c
      · rw [if_pos hc, if_pos hc, first_letter_of_ne (isNoParen_iff.mp hc).1, Option.or_none]
        rfl
      · rw [if_neg hc, if_neg hc, Option.none_or]
        by_cases hopen : c = '('
        · subst hopen
          obtain ⟨group, tail, rfl, htake, hdrop, hgroup⟩ := exists_span (p := isNoParen) rest
          rw [first_letter_self, first_class_letter (by decide) hgroup (not_head_of_dropWhile hdrop),
            first_letter_eq, if_pos rfl, htake, hdrop, Option.bind_map]
          simp only [Function.comp_def, List.reverse_cons, List.reverse_append, List.reverse_nil,
            List.nil_append, List.append_assoc, List.cons_append]
        · rw [first_letter_of_ne hopen, if_neg hopen]
          rfl
  parts := by
    intro text w rest h
    rcases takeUnit_eq_some_iff.mp h with ⟨c, -, rfl, rfl⟩ | ⟨group, -, rfl, rfl⟩
    · rfl
    · simp
  solid := by
    intro text w rest h
    rcases takeUnit_eq_some_iff.mp h with ⟨c, -, rfl, rfl⟩ | ⟨group, -, rfl, rfl⟩
    · exact ⟨c, [], rfl, trimmed_singleton⟩
    · refine ⟨'(', group ++ [')'], rfl, fun _ => ⟨?_, ?_⟩⟩
      · intro d hd
        cases hd
        decide
      · intro d hd
        rw [← List.cons_append, List.getLast?_concat] at hd
        cases hd
        decide
  blank := fun hc rest => if_pos (isNoParen_of_blank _ hc)
  stop := fun rest => rfl

theorem inner_eq_none {text tail : List Char} (htext : NoParens text)
    (htail : literal [')'] tail = none) (hstop : ∀ c, tail.head? = some c → isNoParen c = false) :
    balanced.inner (text ++ tail) = none := by
  induction text with
  | nil =>
    cases tail with
    | nil => rfl
    | cons c tail =>
      have hclose : c ≠ ')' := by
        rintro rfl
        cases htail
      have hopen : c = '(' := by
        have hparen := hstop c rfl
        simpa [isNoParen, hclose] using hparen
      rw [List.nil_append, balanced.inner, if_pos hopen]
  | cons c text ih =>
    obtain ⟨hc, htext⟩ := List.forall_mem_cons.mp htext
    rw [List.cons_append, balanced.inner, if_neg hc.1, if_neg hc.2, ih htext]
    rfl

/-- A source ends with its units, if a closing parenthesis follows them. -/
theorem balanced_of_run {run tail : List Char} (h : Run takeUnit tail run) :
    balanced (run ++ tail) = (literal [')'] tail).map fun _ => (run, tail) := by
  induction h with
  | nil hnone =>
    cases tail with
    | nil => rfl
    | cons c tail =>
      rw [takeUnit] at hnone
      rw [List.nil_append, balanced, literal]
      by_cases hclose : c = ')'
      · rw [if_pos hclose, if_pos hclose]
        rfl
      · rw [if_neg hclose, if_neg hclose]
        by_cases hopen : c = '('
        · subst hopen
          rw [if_neg (by decide), if_pos rfl, Option.map_eq_none_iff] at hnone
          obtain ⟨group, rest, rfl, -, hdrop, hgroup⟩ := exists_span (p := isNoParen) tail
          rw [hdrop] at hnone
          have hparens : NoParens group := fun c hc => isNoParen_iff.mp (hgroup c hc)
          rw [if_pos rfl, inner_eq_none hparens hnone (not_head_of_dropWhile hdrop)]
          rfl
        · rw [if_pos (isNoParen_iff.mpr ⟨hopen, hclose⟩)] at hnone
          cases hnone
  | @cons w run hunit _ ih =>
    rcases takeUnit_eq_some_iff.mp hunit with ⟨c, hc, rfl, -⟩ | ⟨group, hgroup, rfl, -⟩
    · rw [List.singleton_append, List.cons_append, balanced, if_neg hc.2, if_neg hc.1, ih,
        Option.map_map]
      rfl
    · have hassoc : '(' :: (group ++ [')']) ++ run ++ tail
          = '(' :: (group ++ ')' :: (run ++ tail)) := by simp
      rw [hassoc, balanced, if_neg (by decide), if_pos rfl, inner_append hgroup, ih, Option.map_map,
        Option.map_map]
      simp [Function.comp_def]

/-! ## The expressions -/

/-- A name at the start of a word, blanks, and what begins with a parenthesis. -/
def callExpression (f : String) (arguments : Expression) : Expression :=
  both boundary (both (text f.toList) (both blanks (both (letter '(') arguments)))

def isDestination (c : Char) : Bool := c ≠ ',' && c ≠ '(' && c ≠ ')'

/-- The expression `\bf\s*\(\s*([^,()]+?)\s*,\s*((?:[^()]|\([^()]*\))+?)\s*\)` -/
def copyExpression (f : String) : Expression :=
  callExpression f
    (both (argumentExpression (char isDestination) ',') (argumentExpression sourceUnit ')'))

/-- The expression `\bgets\s*\(\s*([^()]+?)\s*\)` -/
def readExpression : Expression :=
  callExpression "gets" (argumentExpression (char isNoParen) ')')

theorem uniform_hit : Uniform fun s => some (Hit.mk s.captured s.rest) :=
  fun _ _ _ h => nomatch h

/-- Before a name that begins with a character of a word, a boundary is the start of a word. -/
theorem matchAt_callExpression {f : String} {c : Char} {cs : List Char} (hf : f.toList = c :: cs)
    (hc : isWord c = true) (arguments : Expression) (behind text : List Char) :
    (callExpression f arguments).matchAt behind text
      = if (behind.head?.map isWord).getD false then none
        else (word f text).bind fun rest => (mark "(" rest).bind fun opened =>
          arguments.first (fun s => some ⟨s.captured, s.rest⟩)
            ⟨'(' :: ((rest.takeWhile isBlank).reverse ++ (f.toList.reverse ++ behind)), [],
              opened⟩ := by
  rw [matchAt_eq, callExpression, first_both, first_boundary, first_both, first_text]
  cases hword : word f text with
  | none =>
    rw [show literal f.toList text = none from hword]
    simp
  | some rest =>
    have htext := word_eq_some_iff.mp hword
    have hboundary : (Progress.mk behind [] text).atBoundary
        = !(behind.head?.map isWord).getD false := by
      rw [Progress.atBoundary, htext, hf]
      cases behind.head? <;> simp [hc]
    have hopen : (both (letter '(') arguments).first (fun s => some (Hit.mk s.captured s.rest))
        = (letter '(').first (arguments.first fun s => some ⟨s.captured, s.rest⟩) :=
      funext (first_both _ _ _)
    rw [show literal f.toList text = some rest from hword, hboundary, Option.bind_some,
      Option.bind_some, first_both, hopen, ← first_both]
    obtain ⟨w, tail, hrest, htake, hdrop, hw⟩ := exists_span (p := isBlank) rest
    have hmark : mark "(" rest = literal ['('] tail := by
      rw [mark, Pattern.blanks, hdrop]
      rfl
    rw [hmark, htake, hrest, first_blanks_letter (by decide) hw (not_head_of_dropWhile hdrop),
      first_letter_eq]
    cases (behind.head?.map isWord).getD false <;> rfl

theorem isDestination_of_blank (c : Char) (hc : isBlank c = true) : isDestination c = true := by
  have hcomma : c ≠ ',' := ne_of_blank hc (by decide)
  have hparen := isNoParen_iff.mp (isNoParen_of_blank c hc)
  simp [isDestination, hcomma, hparen]

theorem copyCall_readAt_eq {f : String} {c : Char} {cs : List Char} (hf : f.toList = c :: cs)
    (hc : isWord c = true) (behind text : List Char) :
    (copyCall f).readAt behind text = (copyExpression f).matchAt behind text := by
  rw [copyExpression, matchAt_callExpression hf hc, readAt]
  have hdestination : OneWay (char isDestination) ',' (takeChar isDestination) :=
    oneWay_char isDestination_of_blank (by decide)
  have hsource := Uniform.argumentExpression oneWay_sourceUnit uniform_hit
  simp only [copyCall, Bool.true_and, Option.bind_eq_bind]
  congr 1
  refine Option.bind_congr fun rest _ => Option.bind_congr fun opened _ => ?_
  have hsplit := opened.takeWhile_append_dropWhile (p := isDestination)
  rw [first_both, ← hsplit, first_argument hdestination hsource (run_takeWhile isDestination opened),
    hsplit]
  refine Option.bind_congr fun d _ => ?_
  rw [first_letter_eq]
  refine Option.bind_congr fun second _ => ?_
  obtain ⟨run, tail, rfl, hrun⟩ := oneWay_sourceUnit.exists_run second
  rw [first_argument oneWay_sourceUnit uniform_hit hrun, balanced_of_run hrun]
  cases hclose : literal [')'] tail with
  | none => simp [first_letter_eq, hclose]
  | some after =>
    rw [literal_eq_some_iff.mp hclose]
    simp [first_letter_self]

theorem lineRead_readAt_eq (behind text : List Char) :
    lineRead.readAt behind text = readExpression.matchAt behind text := by
  rw [readExpression, matchAt_callExpression (c := 'g') rfl (by decide), readAt]
  have hbuffer : OneWay (char isNoParen) ')' (takeChar isNoParen) :=
    oneWay_char isNoParen_of_blank (by decide)
  simp only [lineRead, Bool.true_and, Option.bind_eq_bind]
  congr 1
  refine Option.bind_congr fun rest _ => Option.bind_congr fun opened _ => ?_
  have hsplit := opened.takeWhile_append_dropWhile (p := isNoParen)
  rw [← hsplit, first_argument hbuffer uniform_hit (run_takeWhile isNoParen opened), hsplit]
  refine Option.bind_congr fun d _ => ?_
  rw [first_letter_eq]
  rfl

end DefectScan.Proposal
