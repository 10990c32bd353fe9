import DefectScan.Proofs.LineContext
import DefectScan.Proofs.SpeltPatterns

/-!
# Loops that are given a condition

The first endless `while` of a line is given a condition, and a comment is put at the end of the
line, in place of the blanks there:

    before ++ (loop ++ (middle ++ blank))  becomes
    before ++ (conditionText ++ (middle ++ loopComment))

The new texts hold no endless loop, and none runs over a joint: its first letter stands at its start
only, and it has no slash. So of the endless loops before and in the middle all stay where they are,
for the pattern of the proposals and for that of the scan alike.
-/

namespace DefectScan

open Text Pattern

/-! ## Blanks at the end -/

namespace Text

theorem exists_trimRight (text : List Char) : ∃ w, AllBlank w ∧ text = trimRight text ++ w := by
  obtain ⟨w, rest, hrev, -, hdrop, hw⟩ := exists_span (p := isBlank) text.reverse
  refine ⟨w.reverse, fun c hc => hw c (List.mem_reverse.mp hc), ?_⟩
  rw [trimRight, hdrop, ← List.reverse_append, ← hrev, List.reverse_reverse]

theorem trimRight_append_cons {c : Char} (hc : isBlank c = false) (front text : List Char) :
    trimRight (front ++ c :: text) = front ++ c :: trimRight text := by
  simp only [trimRight, List.reverse_append, List.reverse_cons, List.append_assoc,
    List.singleton_append, List.dropWhile_append]
  split
  · next h =>
    rw [List.isEmpty_iff.mp h]
    simp [hc]
  · simp

end Text

namespace Proposal

open Lexical

/-! ## The change of a line -/

def conditionText : List Char := "while (condition)".toList

def loopComment : List Char := " // supply a real exit condition".toList

theorem exists_of_conditional {line : List Char} {c : Change} (h : conditional line = some c) :
    ∃ before loop middle blank, WhileText loop [] ∧ wordBehind before.reverse = false ∧
      AllBlank blank ∧ line = before ++ (loop ++ (middle ++ blank)) ∧
      c.text = before ++ (conditionText ++ (middle ++ loopComment)) ∧ c.edit = .replaceLine := by
  obtain ⟨o, ho, rfl⟩ := Option.map_eq_some_iff.mp h
  obtain ⟨hparts, hread, -⟩ :=
    leftmost_of_first? endlessWhile_spells.lawful endlessWhile_spells.consuming ho
  obtain ⟨hword, loop, hloop, hmatched⟩ := endlessWhile_spells.readAt_iff.mp hread
  obtain rfl := List.append_cancel_right hmatched
  obtain ⟨blank, hblank, hafter⟩ := exists_trimRight o.after
  refine ⟨o.behind.reverse, o.matched, trimRight o.after, blank, ?_, ?_, hblank, ?_, ?_, rfl⟩
  · rwa [hloop.captured_eq] at hloop
  · rwa [List.reverse_reverse]
  · rw [← hafter, hparts]
  · have hcondition : conditionText = "while (condition".toList ++ [')'] := rfl
    show trimRight (o.behind.reverse ++ conditionText ++ o.after) ++ loopComment = _
    rw [hcondition, List.append_assoc, List.append_assoc, List.singleton_append,
      ← List.append_assoc, trimRight_append_cons (by decide)]
    simp

/-! ## Endless loops around it -/

section
variable {p : Pattern} {Spelt : List Char → List (List Char) → Prop} (hp : p.Spells Spelt)
  (hloop : ∀ {m : List Char} {captured : List (List Char)}, Spelt m captured → LoopText m captured)

include hloop

/-- A loop begins only where one of its two first letters stands. -/
theorem head_of_loop {c : Char} {z rest m rest' : List Char} {captured : List (List Char)}
    (hm : Spelt m captured) (heq : c :: z ++ rest = m ++ rest') : c = 'w' ∨ c = 'f' := by
  obtain ⟨⟨x, t, rfl, hx, -⟩, -⟩ := (hloop hm).letters
  rw [(List.cons.inj heq).1]
  exact hx

theorem uncrossed_while (before rest : List Char) : Uncrossed Spelt before ('w' :: rest) := by
  intro front z beyond rest' captured _ hz hover hover' hm
  obtain ⟨⟨x, t, hparts, -, ht⟩, -⟩ := (hloop hm).letters
  obtain ⟨c, beyond, rfl⟩ := List.exists_cons_of_ne_nil hover
  obtain ⟨d, z, rfl⟩ := List.exists_cons_of_ne_nil hz
  have hc : c ∈ t := by
    rw [← (List.cons.inj hparts).2]
    simp
  exact (ht c hc).1 (List.cons.inj hover').1.symm

/-- A loop that ran into the comment would end with its blank or have its slash. -/
theorem uncrossed_comment (middle rest : List Char) :
    Uncrossed Spelt middle (loopComment ++ rest) := by
  intro front z beyond rest' captured _ hz hover hover' hm
  obtain ⟨⟨x, t, hparts, hx, ht⟩, u, hend⟩ := (hloop hm).letters
  obtain ⟨d, z, rfl⟩ := List.exists_cons_of_ne_nil hz
  obtain ⟨-, htail⟩ := List.cons.inj hparts
  have hcomment : loopComment ++ rest = ' ' :: '/' :: ("/ supply a real exit condition".toList ++ rest) :=
    rfl
  rw [hcomment] at hover'
  match beyond with
  | [] => exact hover rfl
  | [c] =>
    obtain ⟨hc, -⟩ := List.cons.inj hover'
    obtain ⟨-, hlast⟩ := List.append_inj' hend rfl
    rw [← hc] at hlast
    exact absurd hlast (by decide)
  | c :: e :: beyond =>
    obtain ⟨-, hrest⟩ := List.cons.inj hover'
    obtain ⟨rfl, -⟩ := List.cons.inj hrest
    have hslash : '/' ∈ t := by
      rw [← htail]
      simp
    exact (ht _ hslash).2.2 rfl

theorem uncrossed_blank {blank : List Char} (hblank : AllBlank blank) (middle : List Char) :
    Uncrossed Spelt middle blank := by
  intro front z beyond rest' captured _ _ hover hover' hm
  obtain ⟨-, u, hend⟩ := (hloop hm).letters
  obtain ⟨v, rfl, -⟩ := exists_of_concat_eq hend.symm hover
  rw [hover'] at hblank
  exact absurd (hblank ')' (by simp)) (by decide)

include hp

/-- No loop begins in a text that has none of the first letters. -/
theorem linesWhere_of_letters {text : List Char} (hw : 'w' ∉ text) (hf : 'f' ∉ text)
    (keep : List Char → Bool) (behind rest : List Char) :
    linesWhere (fun behind text => p.reports keep behind (text ++ rest)) behind text = [] := by
  apply linesWhere_eq_nil
  intro a z haz hz
  obtain ⟨c, z, rfl⟩ := List.exists_cons_of_ne_nil hz
  have hc : c ∈ text := by
    rw [haz]
    simp
  apply reports_of_readAt_none
  cases hread : p.readAt (a.reverse ++ behind) (c :: z ++ rest) with
  | none => rfl
  | some hit =>
    obtain ⟨-, m, hm, heq⟩ := hp.readAt_iff.mp hread
    rcases head_of_loop hloop hm heq with rfl | rfl
    · exact absurd hc hw
    · exact absurd hc hf

theorem linesWhere_condition (keep : List Char → Bool) (behind rest : List Char) :
    linesWhere (fun behind text => p.reports keep behind (text ++ rest)) behind conditionText
      = [] := by
  have hparts : conditionText = 'w' :: "hile (condition)".toList := rfl
  have hnone : p.reports keep behind (conditionText ++ rest) = false := by
    apply reports_of_readAt_none
    cases hread : p.readAt behind (conditionText ++ rest) with
    | none => rfl
    | some hit =>
      obtain ⟨-, m, hm, heq⟩ := hp.readAt_iff.mp hread
      have hread := (endlessLoop_spells.read_iff _ hit).mpr ⟨m, hloop hm, heq⟩
      have hfails : endlessLoop.read (conditionText ++ rest) = none := rfl
      rw [hfails] at hread
      cases hread
  rw [hparts, linesWhere, ← hparts, if_neg (by simp [hnone])]
  exact linesWhere_of_letters hp hloop (by decide) (by decide) keep _ rest

/-- The endless loops of a changed line: those before and those in the middle. -/
theorem linesWhere_conditional (behind before middle rest : List Char) :
    linesWhere (p.reports fun _ => true) behind
        (before ++ (conditionText ++ (middle ++ (loopComment ++ rest))))
      = linesWhere (p.reports fun _ => true) behind before
        ++ (linesWhere (p.reports fun _ => true)
            (conditionText.reverse ++ (before.reverse ++ behind)) middle
          ++ linesWhere (p.reports fun _ => true)
            (loopComment.reverse ++ (middle.reverse ++
              (conditionText.reverse ++ (before.reverse ++ behind)))) rest) := by
  have hfirst : Uncrossed Spelt before (conditionText ++ (middle ++ (loopComment ++ rest))) :=
    uncrossed_while hloop before _
  rw [hp.linesWhere_append hfirst, Pattern.linesWhere_append _ _ conditionText,
    linesWhere_condition hp hloop, hp.linesWhere_append (uncrossed_comment hloop middle rest),
    Pattern.linesWhere_append _ _ loopComment,
    linesWhere_of_letters hp hloop (by decide : 'w' ∉ loopComment) (by decide)]
  rfl

/-- The endless loops of the line as it was: one more, behind those before it. -/
theorem linesWhere_loop {behind before loop : List Char} {captured : List (List Char)}
    (hspelt : Spelt loop captured) (hwhile : ∃ t, loop = 'w' :: t)
    (hword : wordBehind (before.reverse ++ behind) = false) (rest : List Char) :
    linesWhere (p.reports fun _ => true) behind (before ++ (loop ++ rest))
      = linesWhere (p.reports fun _ => true) behind before
        ++ ((before.reverse ++ behind).count '\n' + 1) ::
          linesWhere (p.reports fun _ => true) (loop.reverse ++ (before.reverse ++ behind)) rest := by
  obtain ⟨t, rfl⟩ := hwhile
  have hfirst : Uncrossed Spelt before ('w' :: t ++ rest) := uncrossed_while hloop before _
  have hhere : p.reports (fun _ => true) (before.reverse ++ behind) ('w' :: t ++ rest) = true :=
    reports_of_readAt (hp.readAt_iff.mpr ⟨hword, _, hspelt, rfl⟩ : p.readAt _ _ = some ⟨captured, rest⟩)
  obtain ⟨⟨x, u, hparts, -, hletters⟩, -⟩ := (hloop hspelt).letters
  obtain ⟨-, rfl⟩ := List.cons.inj hparts
  rw [hp.linesWhere_append hfirst, Pattern.linesWhere_append _ _ ('w' :: t), linesWhere,
    if_pos hhere, linesWhere_of_letters hp hloop (fun hmem => (hletters _ hmem).1 rfl)
      fun hmem => (hletters _ hmem).2.1 rfl]
  rfl

end

end Proposal

end DefectScan
