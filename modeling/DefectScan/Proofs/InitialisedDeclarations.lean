import DefectScan.Proofs.LineContext
import DefectScan.Proofs.SpeltPatterns

/-!
# Declarations that are given a value

All bare declarations of a line are given a value. Between a text and what becomes of it there is a
relation that can be read from left to right (`Initialised`): gaps that stay, and declarations that
become `int x = 0;`. The new texts have an equals sign before their semicolon. So nothing that is
read in the text that results reaches into one of them:

    Initialised text text' → a declaration at the start of text' is one at the start of text

and what stands before a new text counts as assigned. Hence no bare declaration appears, none that
counted as assigned is reported now, and those that were given a value are gone.
-/

namespace DefectScan

open Text

/-! ## Replacing all occurrences -/

namespace Pattern

/-- What becomes of a text, given what stands behind it, with new texts for the occurrences of a
pattern. -/
inductive Rewrites (p : Pattern) (new : Occurrence → List Char) :
    List Char → List Char → List Char → Prop
  | nil {behind : List Char} : Rewrites p new behind [] []
  | skip {behind cs out : List Char} {c : Char} (hread : p.readAt behind (c :: cs) = none)
      (h : Rewrites p new (c :: behind) cs out) : Rewrites p new behind (c :: cs) (c :: out)
  | hit {behind m rest out : List Char} {captured : List (List Char)}
      (hread : p.readAt behind (m ++ rest) = some ⟨captured, rest⟩)
      (h : Rewrites p new (m.reverse ++ behind) rest out) :
      Rewrites p new behind (m ++ rest) (new ⟨behind, m, captured, rest⟩ ++ out)

/-- `done` characters have been dealt with, and nothing is replaced between them and this place. -/
theorem Scan.exists_rewrites {p : Pattern} (hcons : p.Consuming) (new : Occurrence → List Char)
    {text behind rest : List Char} {os : List Occurrence} (h : p.Scan behind rest os)
    (htext : text = behind.reverse ++ rest) {done : Nat} (hdone : done ≤ behind.length) :
    ∃ out, Rewrites p new behind rest out ∧
      replaceAll.go new text os done = behind.reverse.drop done ++ out := by
  have hlength : done ≤ behind.reverse.length := by rwa [List.length_reverse]
  induction h generalizing done with
  | done =>
    rw [List.append_nil] at htext
    exact ⟨[], .nil, by rw [replaceAll.go, htext, List.append_nil]⟩
  | @skip behind cs c os hread h ih =>
    obtain ⟨out, hout, hgo⟩ := ih (by simpa using htext) (Nat.le_succ_of_le hdone)
      (by simpa using Nat.le_succ_of_le hdone)
    refine ⟨c :: out, .skip (hcons.readAt_eq_none hread) hout, ?_⟩
    rw [hgo, List.reverse_cons, List.drop_append_of_le_length hlength, List.append_assoc]
    rfl
  | @find behind m rest captured os hne hread h ih =>
    -- all that is matched has been dealt with when the scan goes on
    obtain ⟨out, hout, hgo⟩ := ih (by rw [htext]; simp)
      (show behind.length + m.length ≤ (m.reverse ++ behind).length by simp; omega) (by simp)
    refine ⟨_, .hit hread hout, ?_⟩
    have hbefore : (text.drop done).take (behind.length - done) = behind.reverse.drop done := by
      rw [htext, List.drop_append_of_le_length hlength]
      exact List.take_left' (by simp)
    have hdealt : (m.reverse ++ behind).reverse.drop (behind.length + m.length) = [] := by
      simp
    rw [replaceAll.go, hbefore, hgo, hdealt, List.nil_append, List.append_assoc]

theorem rewrites_replaceAll {p : Pattern} (hlawful : p.Lawful) (hcons : p.Consuming)
    (new : Occurrence → List Char) (text : List Char) :
    Rewrites p new [] text (p.replaceAll new text) := by
  have hscan := scan_occurrencesFrom hlawful [] text
  obtain ⟨out, hout, hgo⟩ := hscan.exists_rewrites hcons new rfl (Nat.le_refl 0)
  have heq : p.replaceAll new text = out := hgo
  rwa [heq]

end Pattern

namespace Proposal

open Lexical Pattern

/-! ## Declarations with a value -/

/-- A declaration with a value, up to its semicolon. -/
def declaredUpTo (x : List Char) : List Char := "int ".toList ++ (x ++ " = 0".toList)

def declared (x : List Char) : List Char := declaredUpTo x ++ [';']

theorem semicolon_not_mem_declaredUpTo {x : List Char} (hx : AllWord x) : ';' ∉ declaredUpTo x := by
  simp only [declaredUpTo, List.mem_append, not_or]
  exact ⟨by decide, not_mem_of_allWord hx (by decide), by decide⟩

theorem newline_not_mem_declared {x : List Char} (hx : AllWord x) : '\n' ∉ declared x := by
  simp only [declared, declaredUpTo, List.mem_append, not_or]
  exact ⟨⟨by decide, not_mem_of_allWord hx (by decide), by decide⟩, by decide⟩

theorem wordBehind_semicolon (t behind : List Char) :
    wordBehind ((t ++ [';']).reverse ++ behind) = false := by
  rw [List.reverse_append]
  exact (by decide : isWord ';' = false)

/-- Nothing is assigned before the next statement ends. -/
def unassigned (rest : List Char) : Bool := !(rest.takeWhile (· ≠ ';')).contains '='

theorem unassigned_append_semicolon {a : List Char} (ha : ';' ∉ a) (rest : List Char) :
    unassigned (a ++ ';' :: rest) = !a.contains '=' := by
  have hrun : ∀ c ∈ a, decide (c ≠ ';') = true :=
    fun c hc => decide_eq_true fun h => ha (h ▸ hc)
  rw [unassigned, (span_eq hrun (by decide) rest).1]

/-- A declaration without a value does not run over a text in which something is assigned. -/
theorem not_declarationText_of_assigned {m gap z rest beyond rest' : List Char}
    {captured : List (List Char)} (hm : DeclarationText m captured) (hz : ';' ∉ z)
    (hassign : '=' ∈ z) (hgap : m = gap ++ beyond) (hover : beyond ≠ [])
    (heq : z ++ ';' :: rest = beyond ++ rest') : False := by
  obtain ⟨hnone, -, t, ht, hsemi⟩ := hm.letters
  obtain ⟨v, rfl, rfl⟩ := exists_of_concat_eq (ht.symm.trans hgap) hover
  rw [List.append_assoc] at heq
  obtain ⟨rfl, -⟩ := eq_of_append_cons hz (fun h => hsemi (List.mem_append_right gap h)) heq
  exact hnone (by rw [hgap]; simp [hassign])

/-! ## Texts in which declarations are given a value -/

/-- What becomes of a text, given what stands behind it, where some declarations, each on one line,
are given a value. The number is that of the ones behind which nothing was assigned. -/
inductive Initialised : List Char → Nat → List Char → List Char → Prop
  | same {behind t : List Char} : Initialised behind 0 t t
  | next {behind gap m x t t' : List Char} {k : Nat} (hm : DeclarationText m [x]) (hplain : '\n' ∉ m)
      (hword : wordBehind (gap.reverse ++ behind) = false)
      (h : Initialised (m.reverse ++ (gap.reverse ++ behind)) k t t') :
      Initialised behind (k + (unassigned t).toNat) (gap ++ (m ++ t)) (gap ++ (declared x ++ t'))

theorem Initialised.cons {behind t t' : List Char} {c : Char} {k : Nat}
    (h : Initialised (c :: behind) k t t') : Initialised behind k (c :: t) (c :: t') := by
  cases h with
  | same => exact .same
  | @next _ gap m x t t' k hm hplain hword h =>
    have hbehind : gap.reverse ++ c :: behind = (c :: gap).reverse ++ behind := by simp
    rw [hbehind] at hword h
    exact .next hm hplain hword h

theorem Initialised.append {behind t t' : List Char} {k : Nat} (front : List Char)
    (h : Initialised (front.reverse ++ behind) k t t') :
    Initialised behind k (front ++ t) (front ++ t') := by
  induction front generalizing behind with
  | nil => exact h
  | cons c front ih =>
    rw [List.reverse_cons, List.append_assoc] at h
    exact (ih h).cons

/-- A declaration at the start of the text that results was there before. -/
theorem Initialised.declarationText {behind t t' m rest' : List Char} {captured : List (List Char)}
    {k : Nat} (h : Initialised behind k t t') (hm : DeclarationText m captured)
    (heq : t' = m ++ rest') :
    ∃ rest k, t = m ++ rest ∧ Initialised (m.reverse ++ behind) k rest rest' := by
  cases h with
  | same => exact ⟨rest', 0, heq, .same⟩
  | @next _ gap n x t t' k hn hplain hword h =>
    have hpast : ∀ g, gap = m ++ g → rest' = g ++ (declared x ++ t') →
        ∃ rest k, gap ++ (n ++ t) = m ++ rest ∧ Initialised (m.reverse ++ behind) k rest rest' := by
      rintro g rfl rfl
      have hbehind : (m ++ g).reverse ++ behind = g.reverse ++ (m.reverse ++ behind) := by simp
      rw [hbehind] at hword h
      exact ⟨g ++ (n ++ t), _, by simp, .next hn hplain hword h⟩
    rcases List.append_eq_append_iff.mp heq with ⟨beyond, hgap, hover⟩ | ⟨g, hgap, hrest⟩
    · cases beyond with
      | nil => exact hpast [] (by rw [hgap]; simp) hover.symm
      | cons c beyond =>
        rw [declared, List.append_assoc] at hover
        exact (not_declarationText_of_assigned hm (semicolon_not_mem_declaredUpTo hn.allWord)
          (by simp [declaredUpTo]) hgap (List.cons_ne_nil c beyond) hover).elim
    · exact hpast g hgap hrest

/-- What stands before a new text counts as assigned. -/
theorem Initialised.unassigned_of {behind t t' : List Char} {k : Nat} (h : Initialised behind k t t')
    (hnone : unassigned t' = true) : unassigned t = true := by
  cases h with
  | same => exact hnone
  | @next _ gap m x t t' k hm hplain hword h =>
    by_cases hgap : ';' ∈ gap
    · obtain ⟨a, b, rfl, ha⟩ := List.eq_append_cons_of_mem hgap
      rw [List.append_assoc, List.cons_append, unassigned_append_semicolon ha] at hnone ⊢
      exact hnone
    · have hsemi : ';' ∉ gap ++ declaredUpTo x := by
        simp [hgap, semicolon_not_mem_declaredUpTo hm.allWord]
      rw [declared, List.append_assoc, List.singleton_append, ← List.append_assoc,
        unassigned_append_semicolon hsemi] at hnone
      simp [declaredUpTo] at hnone

/-- What is reported in the text that results was reported before. -/
theorem Initialised.reports_of {behind behind' t t' : List Char} {k : Nat}
    (h : Initialised behind k t t') (hword : wordBehind behind' = wordBehind behind)
    (hreports : bareDeclaration.reports unassigned behind' t' = true) :
    bareDeclaration.reports unassigned behind t = true := by
  obtain ⟨hit, hread, hkeep⟩ := exists_of_reports hreports
  obtain ⟨hstart, m, hm, heq⟩ := bareDeclaration_spells.readAt_iff.mp hread
  obtain ⟨rest, k, rfl, hrest⟩ := h.declarationText hm heq
  have hread' : bareDeclaration.readAt behind (m ++ rest) = some ⟨hit.captured, rest⟩ :=
    bareDeclaration_spells.readAt_iff.mpr ⟨hword ▸ hstart, m, hm, rfl⟩
  rw [reports_of_readAt hread']
  exact hrest.unassigned_of hkeep

/-- No declaration without a value can be read in one that has a value. -/
theorem linesWhere_declared {x : List Char} (hx : AllWord x) (keep : List Char → Bool)
    (behind rest : List Char) :
    linesWhere (fun behind text => bareDeclaration.reports keep behind (text ++ rest)) behind
      (declared x) = [] := by
  apply linesWhere_eq_nil
  intro a b hab hb
  apply reports_of_readAt_none
  cases hread : bareDeclaration.readAt (a.reverse ++ behind) (b ++ rest) with
  | none => rfl
  | some hit =>
    obtain ⟨-, m, hm, heq⟩ := bareDeclaration_spells.readAt_iff.mp hread
    have hparts : "int ".toList ++ (x ++ [' ']) ++ '=' :: " 0;".toList = a ++ b := by
      rw [← hab, declared, declaredUpTo]
      simp
    rcases List.append_eq_append_iff.mp hparts with ⟨beyond, -, hvalue⟩ | ⟨beyond, hover, rfl⟩
    · -- behind the equals sign stands no first letter
      obtain ⟨-, ⟨u, rfl⟩, -⟩ := hm.letters
      obtain ⟨c, b, rfl⟩ := List.exists_cons_of_ne_nil hb
      obtain ⟨rfl, -⟩ := List.cons.inj heq
      have hletter : 'i' ∈ '=' :: " 0;".toList := by
        rw [hvalue]
        simp
      exact absurd hletter (by decide)
    · have hsemi : ';' ∉ beyond ++ "= 0".toList := by
        have hfront := semicolon_not_mem_declaredUpTo hx
        have hsplit : declaredUpTo x = a ++ (beyond ++ "= 0".toList) := by
          rw [declaredUpTo, ← List.append_assoc a, ← hover]
          simp
        rw [hsplit] at hfront
        exact fun h => hfront (List.mem_append_right a h)
      exact (not_declarationText_of_assigned hm hsemi (by simp) (List.nil_append m).symm
        (bareDeclaration_spells.ne_nil hm) (by rw [← heq]; simp; rfl)).elim

/-- The lines of the reports after some declarations were given a value: no new ones, and those of
the declarations are gone. -/
theorem Initialised.lines_sublist {behind behind' t t' : List Char} {k : Nat}
    (h : Initialised behind k t t') (hcount : behind'.count '\n' = behind.count '\n')
    (hword : wordBehind behind' = wordBehind behind) :
    (linesWhere (bareDeclaration.reports unassigned) behind' t').Sublist
        (linesWhere (bareDeclaration.reports unassigned) behind t) ∧
      (linesWhere (bareDeclaration.reports unassigned) behind' t').length + k
        ≤ (linesWhere (bareDeclaration.reports unassigned) behind t).length := by
  induction h generalizing behind' with
  | same =>
    rw [linesWhere_behind _ hcount hword]
    exact ⟨.refl _, Nat.le_refl _⟩
  | @next behind gap m x t t' k hm hplain hstart h ih =>
    have hgap : (linesWhere (fun behind text =>
          bareDeclaration.reports unassigned behind (text ++ (declared x ++ t'))) behind' gap).Sublist
        (linesWhere (fun behind text =>
          bareDeclaration.reports unassigned behind (text ++ (m ++ t))) behind gap) := by
      apply linesWhere_sublist gap hcount
      rintro a b rfl -
      rw [List.reverse_append, List.append_assoc] at hstart h
      exact (Initialised.next hm hplain hstart h).reports_of (wordBehind_append_congr hword _)
    obtain ⟨-, ⟨u, hu⟩, v, hv, -⟩ := hm.letters
    have hnewlines : m.count '\n' = 0 ∧ (declared x).count '\n' = 0 :=
      ⟨List.count_eq_zero.mpr hplain,
        List.count_eq_zero.mpr (newline_not_mem_declared hm.allWord)⟩
    obtain ⟨hrest, hlength⟩ := @ih ((declared x).reverse ++ (gap.reverse ++ behind'))
      (by simp [hnewlines, hcount]) (by rw [declared, hv, wordBehind_semicolon, wordBehind_semicolon])
    have hread : bareDeclaration.readAt (gap.reverse ++ behind) (m ++ t) = some ⟨[x], t⟩ :=
      bareDeclaration_spells.readAt_iff.mpr ⟨hstart, m, hm, rfl⟩
    have hone : (unassigned t).toNat ≤ (linesWhere (fun behind text =>
        bareDeclaration.reports unassigned behind (text ++ t)) (gap.reverse ++ behind) m).length := by
      rw [hu, linesWhere, ← hu, reports_of_readAt hread]
      cases unassigned t <;> simp
    rw [linesWhere_append, linesWhere_append _ _ (declared x), linesWhere_declared hm.allWord,
      linesWhere_append _ _ gap, linesWhere_append _ _ m]
    refine ⟨hgap.append (List.Sublist.append (List.nil_sublist _) hrest), ?_⟩
    have := hgap.length_le
    simp only [List.length_append, List.length_nil]
    omega

/-! ## The change of a line -/

/-- The declarations of a line that are given a value, in the text around the line. -/
theorem initialised_of_rewrites {lb t t' : List Char}
    (h : Rewrites bareDeclaration (fun o => declared (captured o 0)) lb t t') (hplain : '\n' ∉ t)
    {before : List Char} (hbefore : wordBehind before = false) (back : List Char) :
    Initialised (lb ++ before)
      (linesWhere (bareDeclaration.reports fun rest => unassigned (rest ++ back)) lb t).length
      (t ++ back) (t' ++ back) := by
  induction h with
  | nil => exact .same
  | @skip lb cs out c hread h ih =>
    rw [linesWhere, reports_of_readAt_none hread, if_neg Bool.false_ne_true]
    exact (ih fun hmem => hplain (List.mem_cons_of_mem c hmem)).cons
  | @hit lb m rest out captured hread h ih =>
    obtain ⟨hword, m', hm, heq⟩ := bareDeclaration_spells.readAt_iff.mp hread
    obtain rfl := List.append_cancel_right heq
    obtain ⟨x, rfl⟩ := hm.exists_captured
    rw [List.mem_append, not_or] at hplain
    have hrest := ih hplain.2
    have hstart : wordBehind (lb ++ before) = false := by
      rw [wordBehind_append_congr (hbefore.trans wordBehind_nil.symm), List.append_nil]
      exact hword
    have hlines := bareDeclaration_selfAvoiding.linesWhere_append (bareDeclaration_spells.ne_nil hm)
      hread fun rest => unassigned (rest ++ back)
    have hone : ∀ {b : Bool} {n : Nat}, (if b then [n] else []).length = b.toNat := by
      intro b n
      cases b <;> rfl
    rw [hlines, List.length_append, hone, Nat.add_comm, List.append_assoc, List.append_assoc]
    rw [List.append_assoc] at hrest
    exact @Initialised.next _ [] _ _ _ _ _ hm hplain.1 hstart hrest

/-- No declaration without a value is left in the line. -/
theorem linesWhere_of_rewrites {lb lb' t t' : List Char}
    (h : Rewrites bareDeclaration (fun o => declared (captured o 0)) lb t t') (hplain : '\n' ∉ t)
    (hword : wordBehind lb' = wordBehind lb) :
    linesWhere (bareDeclaration.reports fun _ => true) lb' t' = [] := by
  induction h generalizing lb' with
  | nil => rfl
  | @skip lb cs out c hread h ih =>
    have hplain' : '\n' ∉ cs := fun hmem => hplain (List.mem_cons_of_mem c hmem)
    have hnone : bareDeclaration.readAt lb' (c :: out) = none := by
      cases hread' : bareDeclaration.readAt lb' (c :: out) with
      | none => rfl
      | some hit =>
        obtain ⟨hstart, m, hm, heq⟩ := bareDeclaration_spells.readAt_iff.mp hread'
        have hinit := (initialised_of_rewrites h hplain' wordBehind_nil []).cons
        simp only [List.append_nil] at hinit
        obtain ⟨rest, -, hrest, -⟩ := hinit.declarationText hm heq
        have hhit : bareDeclaration.readAt lb (c :: cs) = some ⟨hit.captured, rest⟩ :=
          bareDeclaration_spells.readAt_iff.mpr ⟨hword ▸ hstart, m, hm, hrest⟩
        rw [hread] at hhit
        cases hhit
    rw [linesWhere, reports_of_readAt_none hnone, if_neg Bool.false_ne_true]
    exact ih hplain' rfl
  | @hit lb m rest out captured hread h ih =>
    obtain ⟨-, m', hm, heq⟩ := bareDeclaration_spells.readAt_iff.mp hread
    obtain rfl := List.append_cancel_right heq
    obtain ⟨x, rfl⟩ := hm.exists_captured
    rw [List.mem_append, not_or] at hplain
    show linesWhere _ lb' (declared x ++ out) = []
    rw [linesWhere_append, linesWhere_declared hm.allWord]
    obtain ⟨-, -, v, rfl, -⟩ := hm.letters
    exact ih hplain.2 (by rw [declared, wordBehind_semicolon, wordBehind_semicolon])

theorem rewrites_of_initialise {line : List Char} {c : Change} (h : initialise line = some c) :
    Rewrites bareDeclaration (fun o => declared (captured o 0)) [] line c.text ∧
      c.edit = .replaceLine := by
  obtain ⟨o, ho, rfl⟩ := Option.map_eq_some_iff.mp h
  refine ⟨?_, rfl⟩
  have hnew : (fun o => "int ".toList ++ captured o 0 ++ " = 0;".toList)
      = fun o => declared (captured o 0) := by
    funext o
    simp [declared, declaredUpTo]
  have hrewrites := rewrites_replaceAll bareDeclaration_spells.lawful bareDeclaration_spells.consuming
    (fun o => declared (captured o 0)) line
  rw [← hnew] at hrewrites ⊢
  exact hrewrites

end Proposal

end DefectScan
