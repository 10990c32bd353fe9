import DefectScan.Proofs.NamedVariables

/-!
# What the scan and the fixes see of a line

The scan goes over the whole text, and what it has read before a line may end on it. A fix looks at
the line alone. Yet for declarations and loops they agree: a pattern that avoids itself is read at
every place where it can be read, so that nothing on the line is lost to an occurrence before it, and
what lies within the line is read there with or without the lines around it.

    (p.first? line).isSome ↔ ∃ o ∈ q.occurrences text, Spelt o.matched o.captured ∧ o.OnLine n

A dereference needs less than the rule for it, so what is reported within a line is found there.
-/

namespace DefectScan

open Text Pattern Text.Lines

/-! ## Occurrences within a line -/

/-- An occurrence that lies within a line. -/
def Occurrence.OnLine (o : Occurrence) (n : Nat) : Prop := o.line = n ∧ '\n' ∉ o.matched

namespace Text.Lines

theorem exists_lineAt {text : List Char} {n : Nat} (hpos : 1 ≤ n) (hle : n ≤ count text) :
    ∃ line front back, LineAt text n line front back := by
  have hlt : n - 1 < (split text).length := Nat.lt_of_lt_of_le (Nat.sub_one_lt_of_lt hpos) hle
  have hnumbered : numbered? text n = some (split text)[n - 1] := by
    rw [numbered?, if_neg (Nat.ne_of_gt hpos), List.getElem?_eq_getElem hlt]
  obtain ⟨above, below, hsplit, hnumber⟩ := exists_of_numbered? hnumbered
  rw [hnumber]
  exact ⟨_, _, _, lineAt_of_split hsplit⟩

end Text.Lines

namespace Pattern

/-- No occurrence of a pattern that avoids itself runs over a place where it can be read. -/
theorem SelfAvoiding.not_overruns {p : Pattern} (havoid : p.SelfAvoiding) (hlawful : p.Lawful)
    {text a b : List Char} {hit : Hit} (htext : text = a ++ b)
    (hread : p.readAt a.reverse b = some hit) {o : Occurrence} (ho : o ∈ p.occurrences text) :
    ¬ Overruns o a := by
  rintro ⟨hstart, hend⟩
  have hparts := (occurrencesFrom_parts hlawful ho).1
  rcases List.append_eq_append_iff.mp (hparts.trans htext) with ⟨x, rfl, hx⟩ | ⟨x, hx, -⟩
  · rw [List.length_append, List.length_reverse] at hstart hend
    rcases List.append_eq_append_iff.mp hx with ⟨z, rfl, -⟩ | ⟨z, hz, rfl⟩
    · rw [List.length_append] at hend
      omega
    · have hxne : x ≠ [] := List.ne_nil_of_length_pos (by omega)
      have hzne : z ≠ [] := by
        rintro rfl
        rw [hz, List.append_nil] at hend
        omega
      have hnone := havoid _ _ _ (readAt_of_mem_occurrencesFrom hlawful ho) x z hxne hzne
        (by rw [hz, List.append_assoc])
      rw [List.reverse_append, List.reverse_reverse, hnone] at hread
      cases hread
  · have hlength := congrArg List.length hx
    rw [List.length_append, List.length_reverse] at hlength
    omega

/-- What is read in a line alone is what the scan of the whole text reads within the line. -/
theorem first?_isSome_iff_onLine {p q : Pattern} {Spelt Spelt' : List Char → List (List Char) → Prop}
    (hp : p.Spells Spelt) (hq : q.Spells Spelt')
    (hsub : ∀ {m : List Char} {captured : List (List Char)}, Spelt m captured → Spelt' m captured)
    (havoid : q.SelfAvoiding) {text line front back : List Char} {n : Nat}
    (hat : LineAt text n line front back) :
    (p.first? line).isSome = true ↔
      ∃ o ∈ q.occurrences text, Spelt o.matched o.captured ∧ o.OnLine n := by
  have hfront : ∀ pre : List Char,
      wordBehind (pre.reverse ++ front.reverse) = wordBehind pre.reverse := by
    intro pre
    rw [wordBehind_append_congr (hat.wordBehind_front.trans wordBehind_nil.symm), List.append_nil]
  constructor
  · intro h
    obtain ⟨d, hd⟩ := Option.isSome_iff_exists.mp h
    obtain ⟨hparts, hread, -⟩ := leftmost_of_first? hp.lawful hp.consuming hd
    obtain ⟨hword, m, hm, hm'⟩ := hp.readAt_iff.mp hread
    obtain rfl := List.append_cancel_right hm'
    have htext : text = (front ++ d.behind.reverse) ++ (d.matched ++ (d.after ++ back)) := by
      rw [hat.parts, hparts]
      simp
    have hread' : q.readAt (front ++ d.behind.reverse).reverse (d.matched ++ (d.after ++ back))
        = some ⟨d.captured, d.after ++ back⟩ := by
      refine hq.readAt_iff.mpr ⟨?_, d.matched, hsub hm, rfl⟩
      rw [List.reverse_append, hfront, List.reverse_reverse]
      exact hword
    have hmem := mem_occurrences_of_readAt hq.lawful hq.consuming htext hread'
      fun o ho => havoid.not_overruns hq.lawful htext hread' ho
    refine ⟨_, hmem, hm, (hat.lineBefore hparts List.reverse_append).1, fun hnewline => hat.plain ?_⟩
    rw [hparts]
    exact List.mem_append_right _ (List.mem_append_left _ hnewline)
  · rintro ⟨o, ho, hm, hline, hmatched⟩
    obtain ⟨pre, post, hbehind, hpre, -⟩ := hat.exists_of_occurrence hq.lawful ho hline hmatched
    have hword := (hq.readAt_iff.mp (readAt_of_mem_occurrencesFrom hq.lawful ho)).1
    rw [hbehind, hfront] at hword
    have hread : p.readAt pre.reverse (o.matched ++ post) = some ⟨o.captured, post⟩ :=
      hp.readAt_iff.mpr ⟨hword, o.matched, hm, rfl⟩
    rw [← Option.ne_none_iff_isSome, Ne, first?_eq_none_iff hp.lawful hp.consuming]
    intro hnone
    rw [hnone pre _ hpre] at hread
    cases hread

end Pattern

namespace Lexical

/-- An occurrence of the pattern that the rule for a category looks for, discarded or not. -/
def MatchedAt (text : String) (category : Category) (o : Occurrence) : Prop :=
  ∃ r ∈ rules, r.category = category ∧ o ∈ r.pattern.occurrences text.toList

theorem matchedAt_iff {text : String} {r : Rule} (hr : r ∈ rules) {o : Occurrence} :
    MatchedAt text r.category o ↔ o ∈ r.pattern.occurrences text.toList := by
  constructor
  · rintro ⟨s, hs, hcategory, ho⟩
    rwa [rule_eq_of_category hs hr hcategory] at ho
  · exact fun ho => ⟨r, hr, rfl, ho⟩

/-- What the rule for dereferences reads holds the arrow. -/
theorem arrow_mem_of_memberAccess {matched after : List Char} {captured : List (List Char)}
    (h : memberAccess.read (matched ++ after) = some ⟨captured, after⟩) : '>' ∈ matched := by
  rw [memberAccess_read, Option.bind_eq_some_iff] at h
  obtain ⟨hit, hhit, hmember⟩ := h
  obtain ⟨⟨y, rest⟩, hy, hrest⟩ := Option.map_eq_some_iff.mp hmember
  cases hrest
  obtain ⟨x, w, -, -, -, -, htext⟩ := Proposal.dereference_read_iff.mp hhit
  obtain ⟨between, hbetween⟩ := (someWord_suffix hy).trans (blanks_suffix hit.rest)
  have hwhole : matched ++ rest = x ++ (w ++ '-' :: '>' :: between) ++ rest := by
    rw [htext, ← hbetween]
    simp
  rw [List.append_cancel_right hwhole]
  simp

end Lexical

namespace Proposal

open Lexical

/-! ## Lines with a fix -/

theorem fixFor_isSome_iff {f : Finding} {text : String} :
    (fixFor f text).isSome = true ↔ ∃ line front back, LineAt text.toList f.line line front back ∧
      (changeFor f.category line).isSome = true := by
  constructor
  · intro h
    obtain ⟨fix, hfix⟩ := Option.isSome_iff_exists.mp h
    obtain ⟨line, front, back, c, hat, hchange, -⟩ := exists_lineAt_of_fixFor hfix
    exact ⟨line, front, back, hat, Option.isSome_iff_exists.mpr ⟨c, hchange⟩⟩
  · rintro ⟨line, front, back, hat, hchange⟩
    obtain ⟨c, hc⟩ := Option.isSome_iff_exists.mp hchange
    exact Option.isSome_iff_exists.mpr
      ⟨_, fixAt_eq_some_iff.mpr ⟨line, c, hat.numbered?, hc, rfl⟩⟩

/-- A fix that is proposed for what a pattern finds in a line, beside a rule that looks for the same
and perhaps for more. -/
theorem fixFor_isSome_iff_onLine {p : Pattern} {Spelt Spelt' : List Char → List (List Char) → Prop}
    {r : Rule} (hr : r ∈ rules) (hp : p.Spells Spelt) (hq : r.pattern.Spells Spelt')
    (hsub : ∀ {m : List Char} {captured : List (List Char)}, Spelt m captured → Spelt' m captured)
    (havoid : r.pattern.SelfAvoiding) {f : Finding} (hcategory : f.category = r.category)
    (hchange : ∀ line, (changeFor r.category line).isSome = (p.first? line).isSome) (text : String) :
    (fixFor f text).isSome = true ↔
      ∃ o, MatchedAt text f.category o ∧ Spelt o.matched o.captured ∧ o.OnLine f.line := by
  rw [fixFor_isSome_iff]
  simp only [hcategory, hchange, matchedAt_iff hr]
  constructor
  · rintro ⟨line, front, back, hat, hfirst⟩
    exact (first?_isSome_iff_onLine hp hq hsub havoid hat).mp hfirst
  · rintro ⟨o, ho, hm, hline⟩
    have hrange := line_of_mem_occurrences hq.lawful ho
    rw [hline.1] at hrange
    obtain ⟨line, front, back, hat⟩ := exists_lineAt hrange.1 hrange.2
    exact ⟨line, front, back, hat,
      (first?_isSome_iff_onLine hp hq hsub havoid hat).mpr ⟨o, ho, hm, hline⟩⟩

/-- A dereference that is reported within a line gets a fix. -/
theorem fixFor_isSome_of_reported {f : Finding} {text : String} {o : Occurrence}
    (hcategory : f.category = .nullPointer) (ho : ReportedAt text f o) (hmatched : '\n' ∉ o.matched) :
    (fixFor f text).isSome = true := by
  obtain ⟨hmem, -, hline⟩ := ho.of_rule dereferenceRule_mem hcategory
  have hrange := line_of_mem_occurrences memberAccess_lawful hmem
  rw [hline] at hrange
  obtain ⟨line, front, back, hat⟩ := exists_lineAt hrange.1 hrange.2
  obtain ⟨pre, post, -, hpre, hafter⟩ :=
    hat.exists_of_occurrence memberAccess_lawful hmem hline hmatched
  have hread := read_of_readAt (readAt_of_mem_occurrencesFrom memberAccess_lawful hmem)
  have harrow := arrow_mem_of_memberAccess hread
  rw [memberAccess_read, Option.bind_eq_some_iff, hafter, ← List.append_assoc] at hread
  obtain ⟨hit, hhit, -⟩ := hread
  obtain ⟨hit', hhit'⟩ := exists_dereference_read hhit (List.mem_append_left post harrow)
  refine fixFor_isSome_iff.mpr ⟨line, front, back, hat, ?_⟩
  rw [hcategory, changeFor, guard, Option.isSome_map, ← Option.ne_none_iff_isSome, Ne,
    first?_eq_none_iff dereference_lawful dereference_consuming]
  intro hnone
  exact absurd ((hnone pre _ hpre).symm.trans hhit') (Option.some_ne_none hit').symm

/-! ## Main result -/

/-- A declaration gets a fix exactly if the scan of the whole text finds one within the line,
discarded or not. A loop gets one exactly if the scan finds a `while` within the line. A dereference
that is reported and lies within a line gets one. -/
theorem fixFor_isSome_iff_matched (f : Finding) (text : String) :
    (f.category = .uninitializedVar → ((fixFor f text).isSome = true ↔
      ∃ o, MatchedAt text .uninitializedVar o ∧ o.OnLine f.line)) ∧
    (f.category = .infiniteLoop → ((fixFor f text).isSome = true ↔
      ∃ o, MatchedAt text .infiniteLoop o ∧ WhileText o.matched o.captured ∧ o.OnLine f.line)) ∧
    (f.category = .nullPointer →
      ∀ o, ReportedAt text f o → '\n' ∉ o.matched → (fixFor f text).isSome = true) := by
  refine ⟨fun hcategory => ?_, fun hcategory => ?_, fun hcategory o => ?_⟩
  · rw [fixFor_isSome_iff_onLine declarationRule_mem bareDeclaration_spells bareDeclaration_spells id
      bareDeclaration_selfAvoiding hcategory (fun line => Option.isSome_map), hcategory]
    refine exists_congr fun o => and_congr_right fun ho => ?_
    -- every occurrence of the pattern is a declaration
    have hmem := (matchedAt_iff declarationRule_mem).mp ho
    obtain ⟨-, m, hm, hm'⟩ := bareDeclaration_spells.readAt_iff.mp
      (readAt_of_mem_occurrencesFrom bareDeclaration_spells.lawful hmem)
    obtain rfl := List.append_cancel_right hm'
    exact and_iff_right hm
  · rw [fixFor_isSome_iff_onLine loopRule_mem endlessWhile_spells endlessLoop_spells Or.inl
      endlessLoop_selfAvoiding hcategory (fun line => Option.isSome_map), hcategory]
  · exact fixFor_isSome_of_reported hcategory

def brokenText : String := "int a\n; int b;\nwhile (1\n) while(true);\np->q;"

/-- A declaration and a loop that run over the end of their lines get no fix, and those that begin on
the lines where they end do. -/
theorem fixFor_isSome_broken :
    (∃ o, MatchedAt brokenText .uninitializedVar o ∧ o.OnLine 2) ∧
    (¬ ∃ o, MatchedAt brokenText .uninitializedVar o ∧ o.OnLine 1) ∧
    (∃ o, MatchedAt brokenText .infiniteLoop o ∧ WhileText o.matched o.captured ∧ o.OnLine 4) ∧
    (¬ ∃ o, MatchedAt brokenText .infiniteLoop o ∧ WhileText o.matched o.captured ∧ o.OnLine 3) ∧
    ∃ f o, f.category = .nullPointer ∧ ReportedAt brokenText f o ∧ '\n' ∉ o.matched ∧
      (fixFor f brokenText).isSome = true := by
  have hfixes : (fixAt .uninitializedVar 2 brokenText).isSome = true ∧
      (fixAt .uninitializedVar 1 brokenText).isSome = false ∧
      (fixAt .infiniteLoop 4 brokenText).isSome = true ∧
      (fixAt .infiniteLoop 3 brokenText).isSome = false ∧
      ((memberAccess.occurrences brokenText.toList).any fun o =>
        !isGuarded o && !o.matched.contains '\n') = true := by decide +kernel
  obtain ⟨hsecond, hfirst, hfourth, hthird, hmember⟩ := hfixes
  have hagrees (category : Category) (n : Nat) :=
    fixFor_isSome_iff_matched (.atLine category n "" .lexical) brokenText
  obtain ⟨o, hmem, ho⟩ := List.any_eq_true.mp hmember
  simp only [Bool.and_eq_true, Bool.not_eq_true'] at ho
  have hreported : ReportedAt brokenText _ o := ⟨_, dereferenceRule_mem, hmem, ho.1, rfl⟩
  have hplain : '\n' ∉ o.matched := by simpa using ho.2
  refine ⟨((hagrees .uninitializedVar 2).1 rfl).mp hsecond, fun h => ?_,
    ((hagrees .infiniteLoop 4).2.1 rfl).mp hfourth, fun h => ?_,
    _, o, rfl, hreported, hplain, (fixFor_isSome_iff_matched _ brokenText).2.2 rfl o hreported hplain⟩
  · exact Bool.false_ne_true (hfirst.symm.trans (((hagrees .uninitializedVar 1).1 rfl).mpr h))
  · exact Bool.false_ne_true (hthird.symm.trans (((hagrees .infiniteLoop 3).2.1 rfl).mpr h))

end Proposal

end DefectScan
