import DefectScan.Proofs.CallStarts
import DefectScan.Proofs.ConditionalLoops
import DefectScan.Proofs.InitialisedDeclarations

/-!
# Fixing one line again and again

A fix is proposed for a category on a line and applied, and so on until none is proposed (`Rounds`).
A release is put behind its line, which stays as it is, so the rounds for leaks need not end. For the
other categories each round changes the line, and something on the line gets less with each round:

    measure (the line that results) < measure line

There is nothing left to do behind one guard, and behind one round of values for declarations. Loops
are given conditions one by one, and calls get bounds one by one; a call in the arguments of another
stays, with its place among those that are left.
-/

namespace DefectScan.Proposal

open Lexical Patch Pattern Text Text.Lines

/-! ## Rounds -/

/-- A number of rounds of proposing a fix on a line and applying it, until none is proposed. -/
inductive Rounds (category : Category) (n : Nat) : Nat → String → String → Prop
  | done {text : String} (h : fixAt category n text = none) : Rounds category n 0 text text
  | round {text final : String} {fix : Fix} {out : List Char} {k : Nat}
      (hfix : fixAt category n text = some fix) (happly : applyFix text.toList fix = .ok out)
      (h : Rounds category n k (String.ofList out) final) : Rounds category n (k + 1) text final

theorem Rounds.unique {category : Category} {n k k' : Nat} {text final final' : String}
    (h : Rounds category n k text final) (h' : Rounds category n k' text final') :
    k' = k ∧ final' = final := by
  induction h generalizing k' final' with
  | done hnone =>
    cases h' with
    | done => exact ⟨rfl, rfl⟩
    | round hfix => rw [hnone] at hfix; cases hfix
  | round hfix happly _ ih =>
    cases h' with
    | done hnone => rw [hfix] at hnone; cases hnone
    | round hfix' happly' h' =>
      obtain rfl := Option.some.inj (hfix.symm.trans hfix')
      obtain rfl := Except.ok.inj (happly.symm.trans happly')
      obtain ⟨rfl, rfl⟩ := ih h'
      exact ⟨rfl, rfl⟩

/-- The measure of a line of a text; a line that does not exist has measure 0. -/
def onLine (measure : List Char → Nat) (n : Nat) (text : List Char) : Nat :=
  ((numbered? text n).map measure).getD 0

theorem onLine_eq {measure : List Char → Nat} {n : Nat} {text line : List Char}
    (h : numbered? text n = some line) : onLine measure n text = measure line := by
  rw [onLine, h]
  rfl

/-- What a round makes of its line. -/
theorem exists_of_round {category : Category} (hcategory : category ≠ .memoryLeak) {n : Nat}
    {text : String} {fix : Fix} {out : List Char} (hfix : fixAt category n text = some fix)
    (happly : applyFix text.toList fix = .ok out) :
    ∃ line c, '\n' ∉ line ∧ numbered? text.toList n = some line ∧
      changeFor category line = some c ∧ numbered? out n = some (firstLine c.text) := by
  obtain ⟨line, front, back, c, hat, hchange, -, hout⟩ :=
    exists_lineAt_of_fixFor (f := .atLine category n "" .lexical) hfix
  obtain ⟨-, -, hshaped⟩ := changeFor_shaped hat.plain hchange
  rw [if_neg (mt hshaped.inserts_iff.mp hcategory), happly] at hout
  obtain rfl := Except.ok.inj hout
  exact ⟨line, c, hat.plain, hat.numbered?, hchange, (hat.replace c.text).numbered?⟩

/-- A fix that is proposed can be applied. -/
theorem exists_applyFix {category : Category} {n : Nat} {text : String} {fix : Fix}
    (hfix : fixAt category n text = some fix) : ∃ out, applyFix text.toList fix = .ok out := by
  obtain ⟨line, front, back, c, -, -, -, hout⟩ :=
    exists_lineAt_of_fixFor (f := .atLine category n "" .lexical) hfix
  exact ⟨_, hout⟩

section
variable {category : Category} (hcategory : category ≠ .memoryLeak) {measure : List Char → Nat}

include hcategory

/-- The rounds end if each of them lowers the measure of the line. -/
theorem exists_rounds
    (hstep : ∀ {line c}, '\n' ∉ line → changeFor category line = some c →
      measure (firstLine c.text) < measure line) (n : Nat) (text : String) :
    ∃ k final, Rounds category n k text final ∧ k ≤ onLine measure n text.toList := by
  induction hbound : onLine measure n text.toList using Nat.strongRecOn generalizing text with
  | ind bound ih =>
    cases hfix : fixAt category n text with
    | none => exact ⟨0, text, .done hfix, Nat.zero_le _⟩
    | some fix =>
      obtain ⟨out, happly⟩ := exists_applyFix hfix
      obtain ⟨line, c, hplain, hline, hchange, hout⟩ := exists_of_round hcategory hfix happly
      have hlt := hstep hplain hchange
      rw [onLine_eq hline] at hbound
      obtain ⟨k, final, hrounds, hle⟩ := ih _ (hbound ▸ hlt) (String.ofList out)
        (by rw [String.toList_ofList, onLine_eq hout])
      exact ⟨k + 1, final, .round hfix happly hrounds, by omega⟩

/-- Where each round takes one off the measure and none is left at the end, the rounds are counted by
it. -/
theorem Rounds.eq_onLine
    (hstep : ∀ {line c}, '\n' ∉ line → changeFor category line = some c →
      measure (firstLine c.text) + 1 = measure line)
    (hnone : ∀ {line}, changeFor category line = none → measure line = 0) {n k : Nat}
    {text final : String} (h : Rounds category n k text final) :
    k = onLine measure n text.toList := by
  induction h with
  | @done text hfix =>
    cases hline : numbered? text.toList n with
    | none => rw [onLine, hline]; rfl
    | some line =>
      cases hchange : changeFor category line with
      | none => rw [onLine_eq hline, hnone hchange]
      | some c =>
        rw [fixAt_eq_some_iff.mpr ⟨line, c, hline, hchange, rfl⟩] at hfix
        cases hfix
  | @round text final fix out k hfix happly h ih =>
    obtain ⟨line, c, hplain, hline, hchange, hout⟩ := exists_of_round hcategory hfix happly
    rw [String.toList_ofList, onLine_eq hout] at ih
    rw [onLine_eq hline, ih, hstep hplain hchange]

end

/-! ## What a round leaves -/

/-- A change that leaves one line. -/
theorem firstLine_change {category : Category} (hcategory : category ≠ .nullPointer)
    {line : List Char} {c : Change} (hline : '\n' ∉ line) (h : changeFor category line = some c) :
    firstLine c.text = c.text := by
  obtain ⟨-, -, hshaped⟩ := changeFor_shaped hline h
  have hcount := hshaped.count_text
  rw [if_neg hcategory, Lines.count_eq] at hcount
  exact firstLine_eq (List.count_eq_zero.mp (Nat.succ.inj hcount))

/-- The first line of a guard. -/
def guardLine (line x : List Char) : List Char :=
  indentation line ++ ("if (".toList ++ (x ++ " != NULL) \x7b".toList))

theorem not_mem_guardLine {x : List Char} (hx : AllWord x) (line : List Char) :
    '\n' ∉ guardLine line x ∧ '>' ∉ guardLine line x := by
  simp only [guardLine, List.mem_append, not_or]
  exact ⟨⟨newline_not_mem_indentation line, by decide, not_mem_of_allWord hx (by decide), by decide⟩,
    not_mem_indentation (by decide) (by decide) line, by decide, not_mem_of_allWord hx (by decide),
    by decide⟩

theorem exists_of_guard {line : List Char} {c : Change} (h : guard line = some c) :
    ∃ o x rest, dereference.first? line = some o ∧ o.captured = [x] ∧ AllWord x ∧
      c.text = guardLine line x ++ '\n' :: rest := by
  obtain ⟨o, ho, rfl⟩ := Option.map_eq_some_iff.mp h
  obtain ⟨-, hread, -⟩ := leftmost_of_first? dereference_lawful dereference_consuming ho
  obtain ⟨x, -, -, hx, -, hcaptured, -⟩ := dereference_read_iff.mp (read_of_readAt hread)
  have hname : captured o 0 = x := congrArg (·.getD 0 []) hcaptured
  refine ⟨o, x, indentation line ++ ("    ".toList ++ (Text.trim line ++
    '\n' :: (indentation line ++ "\x7d".toList))), ho, hcaptured, hx, ?_⟩
  simp only [hname, guardLine]
  simp

/-- The line of a guard has no dereference. -/
theorem guard_firstLine {line : List Char} {c : Change} (h : guard line = some c) :
    guard (firstLine c.text) = none := by
  obtain ⟨o, x, rest, -, -, hx, htext⟩ := exists_of_guard h
  obtain ⟨hplain, harrow⟩ := not_mem_guardLine hx line
  rw [htext, firstLine_append hplain, guard, Option.map_eq_none_iff,
    first?_eq_none_iff dereference_lawful dereference_consuming]
  intro pre post hsplit
  cases hread : dereference.readAt pre.reverse post with
  | none => rfl
  | some hit =>
    obtain ⟨y, w, -, -, -, -, rfl⟩ := dereference_read_iff.mp (read_of_readAt hread)
    exact absurd (by rw [hsplit]; simp) harrow

/-- All declarations of the line have a value. -/
theorem initialise_changed {line : List Char} {c : Change} (hline : '\n' ∉ line)
    (h : initialise line = some c) : initialise c.text = none := by
  have hlines := linesWhere_of_rewrites (rewrites_of_initialise h).1 hline rfl
  have hlength := length_occurrences bareDeclaration_spells.lawful bareDeclaration_spells.consuming
    bareDeclaration_selfAvoiding c.text
  rw [hlines] at hlength
  rw [initialise, first?, List.length_eq_zero_iff.mp hlength]
  rfl

/-- The number of endless `while` loops of a line. -/
def endlessWhiles (line : List Char) : Nat := (endlessWhile.occurrences line).length

theorem conditional_eq_none_iff {line : List Char} :
    conditional line = none ↔ endlessWhiles line = 0 := by
  rw [conditional, Option.map_eq_none_iff, first?, List.head?_eq_none_iff, endlessWhiles,
    List.length_eq_zero_iff]

/-- One loop less is endless. -/
theorem endlessWhiles_conditional {line : List Char} {c : Change} (h : conditional line = some c) :
    endlessWhiles c.text + 1 = endlessWhiles line := by
  obtain ⟨before, loop, middle, blank, hloop, hword, hblank, rfl, htext, -⟩ :=
    exists_of_conditional h
  have hincluded : ∀ {m : List Char} {captured : List (List Char)}, WhileText m captured →
      LoopText m captured := Or.inl
  have hafter := linesWhere_conditional endlessWhile_spells hincluded [] before middle []
  have hstart : wordBehind (before.reverse ++ []) = false := by rwa [List.append_nil]
  have hbefore := linesWhere_loop endlessWhile_spells hincluded hloop hloop.head_eq hstart
    (middle ++ blank)
  simp only [endlessWhiles, length_occurrences endlessWhile_spells.lawful
    endlessWhile_spells.consuming endlessWhile_selfAvoiding]
  have hblanks : ∀ behind, linesWhere (endlessWhile.reports fun _ => true) behind blank = [] := by
    intro behind
    simpa using linesWhere_of_letters endlessWhile_spells hincluded
      (not_mem_of_allBlank hblank (by decide)) (not_mem_of_allBlank hblank (by decide))
      (fun _ => true) behind []
  have hmiddle : (linesWhere (endlessWhile.reports fun _ => true)
        (conditionText.reverse ++ (before.reverse ++ [])) middle).length
      = (linesWhere (endlessWhile.reports fun _ => true)
        (loop.reverse ++ (before.reverse ++ [])) middle).length := by
    apply length_linesWhere_congr
    intro a b _ _
    apply endlessWhile.reports_congr (wordBehind_append_congr _ _)
    obtain ⟨-, t, rfl⟩ := (hincluded hloop).letters
    rw [List.reverse_append]
    rfl
  rw [List.append_nil] at hafter
  rw [htext, hbefore, hafter, endlessWhile_spells.linesWhere_append (uncrossed_blank hincluded hblank middle),
    hblanks]
  simp only [List.length_append, List.length_cons, List.length_nil, hmiddle]
  rfl

/-- The other changes leave nothing to change. -/
theorem changed_once {category : Category} (hbuffer : category ≠ .bufferOverflow)
    (hloop : category ≠ .infiniteLoop) (hleak : category ≠ .memoryLeak) {line : List Char}
    {c : Change} (hplain : '\n' ∉ line) (h : changeFor category line = some c) :
    changeFor category (firstLine c.text) = none := by
  cases category with
  | memoryLeak => exact absurd rfl hleak
  | bufferOverflow => exact absurd rfl hbuffer
  | infiniteLoop => exact absurd rfl hloop
  | nullPointer => exact guard_firstLine h
  | uninitializedVar =>
    rw [firstLine_change (by decide) hplain h]
    exact initialise_changed hplain h
  | missingReturn => rfl
  | syntaxError => rfl

/-! ## Main result -/

/-- Whether a change is proposed, as a number. -/
def isChanged (category : Category) (line : List Char) : Nat :=
  (changeFor category line).isSome.toNat

theorem onLine_isChanged_le (category : Category) (n : Nat) (text : List Char) :
    onLine (isChanged category) n text ≤ 1 := by
  cases hline : numbered? text n with
  | none =>
    rw [onLine, hline]
    exact Nat.zero_le 1
  | some line =>
    rw [onLine_eq hline]
    exact Bool.toNat_le _

theorem isChanged_lt {category : Category} {line : List Char} {c : Change}
    (h : changeFor category line = some c) (hnone : changeFor category (firstLine c.text) = none) :
    isChanged category (firstLine c.text) < isChanged category line := by
  rw [isChanged, isChanged, h, hnone]
  exact Nat.zero_lt_one

/-- Fixing a line for a category other than leaks ends, in one way. Guards and declarations take one
round at most, loops one round for each endless `while` of the line, and calls at most as many rounds
as there are places on the line where one of them begins, one place less with each round. -/
theorem rounds_end {category : Category} (hcategory : category ≠ .memoryLeak) (n : Nat)
    (text : String) :
    ∃ k final, Rounds category n k text final ∧
      (∀ k' final', Rounds category n k' text final' → k' = k ∧ final' = final) ∧
      (category = .uninitializedVar ∨ category = .nullPointer → k ≤ 1) ∧
      (category = .infiniteLoop → k = onLine endlessWhiles n text.toList) ∧
      (category = .bufferOverflow → k ≤ onLine starts n text.toList ∧
        ∀ fix out, fixAt category n text = some fix → applyFix text.toList fix = .ok out →
          onLine starts n out + 1 = onLine starts n text.toList) := by
  by_cases hbuffer : category = .bufferOverflow
  · subst hbuffer
    have hstep : ∀ {line c}, '\n' ∉ line → changeFor .bufferOverflow line = some c →
        starts (firstLine c.text) + 1 = starts line := by
      intro line c hplain h
      rw [firstLine_change (by decide) hplain h, starts_bound h]
    obtain ⟨k, final, hrounds, hle⟩ := exists_rounds hcategory
      (fun hplain h => Nat.lt_of_succ_le (Nat.le_of_eq (hstep hplain h))) n text
    refine ⟨k, final, hrounds, fun k' final' h => hrounds.unique h, by simp, by simp,
      fun _ => ⟨hle, fun fix out hfix happly => ?_⟩⟩
    obtain ⟨line, c, hplain, hline, hchange, hout⟩ := exists_of_round hcategory hfix happly
    rw [onLine_eq hline, onLine_eq hout, hstep hplain hchange]
  by_cases hloop : category = .infiniteLoop
  · subst hloop
    have hstep : ∀ {line c}, '\n' ∉ line → changeFor .infiniteLoop line = some c →
        endlessWhiles (firstLine c.text) + 1 = endlessWhiles line := by
      intro line c hplain h
      rw [firstLine_change (by decide) hplain h, endlessWhiles_conditional h]
    obtain ⟨k, final, hrounds, -⟩ := exists_rounds hcategory
      (fun hplain h => Nat.lt_of_succ_le (Nat.le_of_eq (hstep hplain h))) n text
    exact ⟨k, final, hrounds, fun k' final' h => hrounds.unique h, by simp,
      fun _ => Rounds.eq_onLine hcategory hstep conditional_eq_none_iff.mp hrounds, by simp⟩
  · obtain ⟨k, final, hrounds, hle⟩ := exists_rounds hcategory
      (fun hplain h => isChanged_lt h (changed_once hbuffer hloop hcategory hplain h)) n text
    exact ⟨k, final, hrounds, fun k' final' h => hrounds.unique h,
      fun _ => Nat.le_trans hle (onLine_isChanged_le category n _),
      fun h => absurd h hloop, fun h => absurd h hbuffer⟩

def nestedLoopsText : String := "f();\n  while(1) \x7b for (;;) while ( true )\t; \x7d  \nwhile (1);"

/-- Two loops on a line, with one of another kind between them. -/
theorem rounds_end_nested : ∃ final, Rounds .infiniteLoop 2 2 nestedLoopsText final ∧
    ∀ k' final', Rounds .infiniteLoop 2 k' nestedLoopsText final' → k' = 2 ∧ final' = final := by
  have hcount : onLine endlessWhiles 2 nestedLoopsText.toList = 2 := by decide +kernel
  obtain ⟨k, final, hrounds, hunique, -, hk, -⟩ :=
    @rounds_end .infiniteLoop (by decide) 2 nestedLoopsText
  obtain rfl : k = 2 := (hk rfl).trans hcount
  exact ⟨final, hrounds, hunique⟩

end DefectScan.Proposal
