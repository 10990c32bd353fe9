import DefectScan.Proofs.ReleasedAllocations
import DefectScan.Proofs.RepeatedFixes

/-!
# The variable that a fix names

A guard tests the variable of the first dereference on the line of a finding, and a release names the
variable of the first allocation that is assigned there. The scan reports the same place, unless its
rule discards it, the place is not all of what the rule looks for, or an occurrence that begins
before runs over it. The rule for dereferences discards more and more along a line:

    isTested x before → isTested x (before ++ more)

So of a variable that is tested before its first dereference none is reported on the line.
-/

namespace DefectScan

open Text Pattern

namespace Lexical

/-! ## Tests on a line -/

/-- A variable is tested in a text. -/
def isTested (x text : List Char) : Bool :=
  (places x none text).any fun place =>
    !(place.1.map isNameChar).getD false && testsPrevious place.2

theorem isGuarded_eq {o : Occurrence} {x : List Char} (h : o.captured = [x]) :
    isGuarded o = isTested x o.lineBefore := by
  rw [isGuarded, h]
  rfl

theorem testsPrevious_iff {text : List Char} : testsPrevious text = true ↔
    ∃ a rest, AllBlank a ∧ (text = a ++ ("&&".toList ++ rest) ∨
      ∃ b c, AllBlank b ∧ AllBlank c ∧
        text = a ++ ("!=".toList ++ (b ++ ("NULL".toList ++ (c ++ ("&&".toList ++ rest)))))) := by
  constructor
  · intro h
    obtain ⟨a, t, rfl, -, hblanks, ha⟩ := exists_span (p := isBlank) text
    simp only [testsPrevious, blanks, hblanks] at h
    split at h
    · next r hne =>
      split at h
      · next r' hnull =>
        obtain ⟨b, t', rfl, -, hblanks', hb⟩ := exists_span (p := isBlank) r
        obtain ⟨c, t'', rfl, -, hblanks'', hc⟩ := exists_span (p := isBlank) r'
        rw [hblanks''] at h
        obtain ⟨rest, rfl⟩ := List.isPrefixOf_iff_prefix.mp h
        rw [hblanks', word_eq_some_iff] at hnull
        rw [word_eq_some_iff.mp hne, hnull]
        exact ⟨a, rest, ha, Or.inr ⟨b, c, hb, hc, rfl⟩⟩
      · rw [word_eq_some_iff.mp hne] at h
        cases h
    · obtain ⟨rest, rfl⟩ := List.isPrefixOf_iff_prefix.mp h
      exact ⟨a, rest, ha, Or.inl rfl⟩
  · rintro ⟨a, rest, ha, rfl | ⟨b, c, hb, hc, rfl⟩⟩
    · have hblanks : blanks (a ++ ("&&".toList ++ rest)) = "&&".toList ++ rest :=
        blanks_append ha (by decide) _
      simp only [testsPrevious, hblanks]
      rfl
    · have hequal : blanks (a ++ ("!=".toList ++ (b ++ ("NULL".toList ++ (c ++ ("&&".toList ++ rest))))))
          = "!=".toList ++ (b ++ ("NULL".toList ++ (c ++ ("&&".toList ++ rest)))) :=
        blanks_append ha (by decide) _
      have hnull : blanks (b ++ ("NULL".toList ++ (c ++ ("&&".toList ++ rest))))
          = "NULL".toList ++ (c ++ ("&&".toList ++ rest)) :=
        blanks_append hb (by decide) _
      have hand : blanks (c ++ ("&&".toList ++ rest)) = "&&".toList ++ rest :=
        blanks_append hc (by decide) _
      simp only [testsPrevious, hequal, word_eq_some_iff.mpr rfl, hnull, hand]
      rfl

theorem testsPrevious_append {text : List Char} (h : testsPrevious text = true) (more : List Char) :
    testsPrevious (text ++ more) = true := by
  obtain ⟨a, rest, ha, rfl | ⟨b, c, hb, hc, rfl⟩⟩ := testsPrevious_iff.mp h
  · exact testsPrevious_iff.mpr ⟨a, rest ++ more, ha, Or.inl (by simp)⟩
  · exact testsPrevious_iff.mpr ⟨a, rest ++ more, ha, Or.inr ⟨b, c, hb, hc, by simp⟩⟩

theorem places_eq_nil {x text : List Char} (h : text.length < x.length) (before : Option Char) :
    places x before text = [] := by
  induction text generalizing before with
  | nil => rw [places]
  | cons c cs ih =>
    have hnone : literal x (c :: cs) = none := by
      cases hread : literal x (c :: cs) with
      | none => rfl
      | some rest =>
        have hlength := congrArg List.length (literal_eq_some_iff.mp hread)
        rw [List.length_append] at hlength
        omega
    rw [places, hnone]
    exact ih (Nat.lt_of_succ_lt h) (some c)

theorem literal_append {x text rest : List Char} (h : literal x text = some rest) (more : List Char) :
    literal x (text ++ more) = some (rest ++ more) := by
  rw [literal_eq_some_iff, literal_eq_some_iff.mp h, List.append_assoc]

/-- A place in a text is a place in a longer one. -/
theorem mem_places_append {x text : List Char} {before b : Option Char} {rest : List Char}
    (h : (b, rest) ∈ places x before text) (more : List Char) :
    (b, rest ++ more) ∈ places x before (text ++ more) := by
  induction before, text using places.induct x with
  | case1 before => simp [places] at h
  | case2 before c cs r hread hlt ih =>
    have hmore : literal x (c :: (cs ++ more)) = some (r ++ more) := literal_append hread more
    have hlt' : (r ++ more).length < (c :: (cs ++ more)).length := by
      simp only [List.length_append, List.length_cons] at hlt ⊢
      omega
    rw [places, hread] at h
    rw [List.cons_append, places, hmore]
    simp only [if_pos hlt] at h
    simp only [if_pos hlt']
    rcases List.mem_cons.mp h with h | h
    · cases h
      exact List.mem_cons_self
    · exact List.mem_cons_of_mem _ (ih h)
  | case3 before c cs r hread hnlt ih =>
    have hmore : literal x (c :: (cs ++ more)) = some (r ++ more) := literal_append hread more
    have hnlt' : ¬ (r ++ more).length < (c :: (cs ++ more)).length := by
      simp only [List.length_append, List.length_cons] at hnlt ⊢
      omega
    rw [places, hread] at h
    rw [List.cons_append, places, hmore]
    simp only [if_neg hnlt] at h
    simp only [if_neg hnlt']
    exact ih h
  | case4 before c cs hread ih =>
    rw [places, hread] at h
    cases hmore : literal x (c :: (cs ++ more)) with
    | none =>
      rw [List.cons_append, places, hmore]
      exact ih h
    | some r =>
      -- the name runs over the end of the text, so it stands nowhere further on
      rw [literal_eq_some_iff, ← List.cons_append] at hmore
      rcases List.append_eq_append_iff.mp hmore with ⟨z, rfl, -⟩ | ⟨z, hz, -⟩
      · rw [places_eq_nil (by simp)] at h
        cases h
      · rw [literal_eq_some_iff.mpr hz] at hread
        cases hread

theorem isTested_append {x text : List Char} (h : isTested x text = true) (more : List Char) :
    isTested x (text ++ more) = true := by
  obtain ⟨⟨b, rest⟩, hmem, htest⟩ := List.any_eq_true.mp h
  rw [Bool.and_eq_true] at htest
  refine List.any_eq_true.mpr ⟨(b, rest ++ more), mem_places_append hmem more, ?_⟩
  rw [Bool.and_eq_true]
  exact ⟨htest.1, testsPrevious_append htest.2 more⟩

/-! ## Dereferences with a member -/

theorem memberAccess_read (text : List Char) : memberAccess.read text
    = (Proposal.dereference.read text).bind fun hit =>
      (someWord (blanks hit.rest)).map fun member => ⟨hit.captured, member.2⟩ := by
  simp only [memberAccess, Proposal.dereference, Option.bind_eq_bind]
  cases someWord text with
  | none => rfl
  | some x =>
    cases hmark : mark "->" x.2 with
    | none => simp [hmark]
    | some rest =>
      simp [hmark]
      cases someWord (blanks rest) <;> rfl

theorem memberAccess_consuming : memberAccess.Consuming := by
  intro text hit hread
  rw [memberAccess_read, Option.bind_eq_some_iff] at hread
  obtain ⟨d, hd, hmember⟩ := hread
  obtain ⟨⟨y, rest⟩, hy, rfl⟩ := Option.map_eq_some_iff.mp hmember
  have hle := ((someWord_suffix hy).trans (blanks_suffix d.rest)).length_le
  exact Nat.lt_of_le_of_lt hle (Proposal.dereference_consuming text d hd)

theorem dereferenceRule_mem : ⟨.nullPointer, memberAccess, isGuarded⟩ ∈ rules := by simp [rules]

end Lexical

namespace Proposal

open Lexical Patch Text.Lines

/-! ## Guards -/

/-- A dereference ends with its arrow, so it is read in a text that holds one. -/
theorem exists_dereference_read {text more : List Char} {hit : Hit}
    (h : dereference.read (text ++ more) = some hit) (harrow : '>' ∈ text) :
    ∃ hit', dereference.read text = some hit' := by
  obtain ⟨x, w, hxne, hx, hw, -, heq⟩ := dereference_read_iff.mp h
  have hsplit : text ++ more = (x ++ (w ++ ['-'])) ++ ['>'] ++ hit.rest := by
    rw [heq]
    simp
  rcases List.append_eq_append_iff.mp hsplit with ⟨z, hz, -⟩ | ⟨z, rfl, -⟩
  · by_cases hnil : z = []
    · rw [hnil, List.append_nil] at hz
      exact ⟨⟨[x], []⟩, dereference_read_iff.mpr ⟨x, w, hxne, hx, hw, rfl, by rw [← hz]; simp⟩⟩
    · obtain ⟨u, -, hu⟩ := exists_of_concat_eq hz hnil
      have hmem : '>' ∈ x ++ (w ++ ['-']) := by
        rw [hu]
        exact List.mem_append_left u harrow
      simp only [List.mem_append, List.mem_singleton] at hmem
      rcases hmem with hmem | hmem | hmem
      · exact absurd hmem (not_mem_of_allWord hx (by decide))
      · exact absurd hmem (not_mem_of_allBlank hw (by decide))
      · cases hmem
  · exact ⟨⟨[x], z⟩, dereference_read_iff.mpr ⟨x, w, hxne, hx, hw, rfl, by simp⟩⟩

/-- What is a dereference in the whole text stands on the line at the first one or behind it. -/
theorem first_behind_prefix {line pre post back : List Char} {d : Occurrence} {hit : Hit}
    (hd : dereference.first? line = some d) (hline : line = pre ++ post)
    (h : dereference.read (post ++ back) = some hit) : d.behind.reverse <+: pre := by
  obtain ⟨hparts, hread, hnone⟩ := leftmost_of_first? dereference_lawful dereference_consuming hd
  obtain ⟨y, w, -, -, -, -, htext⟩ := dereference_read_iff.mp (read_of_readAt hread)
  refine List.prefix_of_prefix_length_le ⟨_, hparts.symm⟩ ⟨_, hline.symm⟩ ?_
  rw [List.length_reverse]
  apply Nat.le_of_not_lt
  intro hlt
  have harrow : '>' ∈ post := by
    rcases List.append_eq_append_iff.mp (hparts.symm.trans hline) with ⟨v, hv, -⟩ | ⟨v, -, hv⟩
    · rw [hv, List.length_append, List.length_reverse] at hlt
      omega
    · rw [hv, htext]
      simp
  obtain ⟨hit', hhit'⟩ := exists_dereference_read h harrow
  exact absurd ((hnone pre post hline hlt).symm.trans hhit') nofun

section
variable {f : Finding} {text : String} {line front back x : List Char} {d : Occurrence}
  (hcategory : f.category = .nullPointer) (hat : LineAt text.toList f.line line front back)
  (hd : dereference.first? line = some d)

include hcategory hat hd

/-- The first dereference on the line is reported, unless it is tested before, has no member or lies
in an occurrence that begins before it. -/
theorem exists_reported_dereference (hf : f ∈ scan text) (hx : d.captured = [x])
    (htested : isTested x d.behind.reverse = false)
    (hmember : (someWord (blanks (d.after ++ back))).isSome = true)
    (hfree : ∀ o ∈ memberAccess.occurrences text.toList, ¬ Overruns o (front ++ d.behind.reverse)) :
    ∃ o, ReportedAt text f o ∧ o.captured = [x] ∧ o.behind = d.behind ++ front.reverse := by
  obtain ⟨hparts, hread, -⟩ := leftmost_of_first? dereference_lawful dereference_consuming hd
  obtain ⟨member, hmember⟩ := Option.isSome_iff_exists.mp hmember
  have hmore : dereference.read (d.matched ++ (d.after ++ back)) = some ⟨[x], d.after ++ back⟩ := by
    obtain ⟨y, w, hyne, hy, hw, hcaptured, htext⟩ := dereference_read_iff.mp (read_of_readAt hread)
    rw [← hx]
    exact dereference_read_iff.mpr ⟨y, w, hyne, hy, hw, hcaptured, by
      rw [← List.append_assoc, htext]; simp⟩
  have hread' : memberAccess.read (d.matched ++ (d.after ++ back)) = some ⟨[x], member.2⟩ := by
    rw [memberAccess_read, hmore, Option.bind_some, hmember]
    rfl
  obtain ⟨m, hm⟩ := memberAccess_lawful _ _ hread'
  rw [← hm] at hread'
  have hmem := mem_occurrences_of_readAt memberAccess_lawful memberAccess_consuming
    (by rw [hm, hat.parts, hparts]; simp) hread' hfree
  rw [List.reverse_append] at hmem
  obtain ⟨hline, hbefore⟩ := hat.lineBefore hparts
    (o := ⟨d.behind.reverse.reverse ++ front.reverse, m, [x], member.2⟩) rfl
  have hkeep : isGuarded ⟨d.behind.reverse.reverse ++ front.reverse, m, [x], member.2⟩ = false := by
    rw [isGuarded_eq rfl, hbefore, htested]
  exact ⟨_, reportedAt_of_line hf dereferenceRule_mem hcategory hmem hkeep hline, rfl, by simp⟩

/-- Behind a test of a variable none of its dereferences on the line is reported. -/
theorem not_reported_of_tested (htested : isTested x d.behind.reverse = true) {o : Occurrence}
    (ho : ReportedAt text f o) : o.captured ≠ [x] := by
  intro hcaptured
  obtain ⟨hmem, hkeep, hline⟩ := ho.of_rule dereferenceRule_mem hcategory
  have hparts := (occurrencesFrom_parts memberAccess_lawful hmem).1
  obtain ⟨pre, post, hbehind, hpre, hpost⟩ :=
    hat.exists_of_count hparts.symm (by rw [List.count_reverse]; exact hline)
  have hbefore : o.lineBefore = pre := by
    refine (hat.lineBefore hpre ?_).2
    rw [← List.reverse_append, ← hbehind, List.reverse_reverse]
  have hmember := read_of_readAt (readAt_of_mem_occurrencesFrom memberAccess_lawful hmem)
  rw [memberAccess_read, Option.bind_eq_some_iff, hpost] at hmember
  obtain ⟨hit, hhit, -⟩ := hmember
  obtain ⟨more, hmore⟩ := first_behind_prefix hd hpre hhit
  have hguarded : isGuarded o = true := by
    rw [isGuarded_eq hcaptured, hbefore, ← hmore]
    exact isTested_append htested more
  exact absurd hguarded (Bool.eq_false_iff.mp hkeep)

end

/-! ## Releases -/

/-- An allocation on the line is reported if the call ends and nothing is released before the end of
its block, unless it lies in an allocation that begins before it. -/
theorem reported_allocation_iff {f : Finding} {text : String} {line front back before after : List Char}
    (hf : f ∈ scan text) (hcategory : f.category = .memoryLeak)
    (hat : LineAt text.toList f.line line front back)
    (hline : line = before ++ ("malloc".toList ++ after))
    (hword : wordBehind (front ++ before).reverse = false)
    (hfree : ∀ o ∈ allocation.occurrences text.toList, ¬ Overruns o (front ++ before)) :
    (∃ o, ReportedAt text f o ∧ o.behind = (front ++ before).reverse) ↔
      ∃ hit, allocation.read ("malloc".toList ++ (after ++ back)) = some hit ∧
        unreleased hit.rest = true := by
  have htext : text.toList = front ++ before ++ ("malloc".toList ++ (after ++ back)) := by
    rw [hat.parts, hline]
    simp
  constructor
  · rintro ⟨o, ho, hbehind⟩
    obtain ⟨hmem, hkeep, -⟩ := ho.of_rule allocationRule_mem hcategory
    have hparts := (occurrencesFrom_parts allocation_spells.lawful hmem).1
    rw [hbehind, List.reverse_reverse] at hparts
    have hsame := List.append_cancel_left (hparts.trans htext)
    have hread := read_of_readAt (readAt_of_mem_occurrencesFrom allocation_spells.lawful hmem)
    rw [hsame] at hread
    exact ⟨_, hread, congrArg not hkeep⟩
  · rintro ⟨⟨captured, rest⟩, hread, hunreleased⟩
    -- the call is read where no earlier one runs over it, so the scan comes to it
    obtain ⟨m, hm, hparts⟩ := (allocation_spells.read_iff _ _).mp hread
    have hat' : allocation.readAt (front ++ before).reverse (m ++ rest) = some ⟨captured, rest⟩ :=
      allocation_spells.readAt_iff.mpr ⟨hword, m, hm, rfl⟩
    have hmem := mem_occurrences_of_readAt allocation_spells.lawful allocation_spells.consuming
      (htext.trans (by rw [hparts])) hat' hfree
    have hplace := (hat.lineBefore hline (o := ⟨(front ++ before).reverse, m, captured, rest⟩)
      List.reverse_append).1
    have hkeep : isReleased ⟨(front ++ before).reverse, m, captured, rest⟩ = false :=
      (Bool.not_eq_true' _).mp hunreleased
    exact ⟨_, reportedAt_of_line hf allocationRule_mem hcategory hmem hkeep hplace, rfl⟩

/-! ## Main result -/

/-- A guard tests the variable of the first dereference on the line. It is reported if it is not
tested before, and otherwise no dereference of the variable on the line is. A release names the
variable that the first allocation on the line is assigned to, and it is reported if nothing is
released between the end of the call and the end of the block. -/
theorem fixFor_names_first {f : Finding} {text : String} {fix : Fix} (hf : f ∈ scan text)
    (hfix : fixFor f text = some fix) :
    ∃ line front back, LineAt text.toList f.line line front back ∧
      (f.category = .nullPointer →
        ∃ d x rest, dereference.first? line = some d ∧ d.captured = [x] ∧
          fix.replacementText.toList = guardLine line x ++ '\n' :: rest ∧
          (isTested x d.behind.reverse = true → ∀ o, ReportedAt text f o → o.captured ≠ [x]) ∧
          (isTested x d.behind.reverse = false →
            (someWord (blanks (d.after ++ back))).isSome = true →
            (∀ o ∈ memberAccess.occurrences text.toList, ¬ Overruns o (front ++ d.behind.reverse)) →
              ∃ o, ReportedAt text f o ∧ o.captured = [x] ∧ o.behind = d.behind ++ front.reverse)) ∧
      (f.category = .memoryLeak →
        ∃ d x gap, assignedAllocation.first? line = some d ∧ d.captured = [x] ∧ AssignText gap ∧
          line = d.behind.reverse ++ (x ++ gap) ++ ("malloc".toList ++ d.after) ∧
          fix.replacementText.toList = releaseUpTo line x ++ [';'] ∧
          ((∀ o ∈ allocation.occurrences text.toList,
              ¬ Overruns o (front ++ (d.behind.reverse ++ (x ++ gap)))) →
            ((∃ o, ReportedAt text f o ∧
                o.behind = (front ++ (d.behind.reverse ++ (x ++ gap))).reverse) ↔
              ∃ hit, allocation.read ("malloc".toList ++ (d.after ++ back)) = some hit ∧
                unreleased hit.rest = true))) := by
  obtain ⟨line, front, back, c, hat, hchange, htext, -⟩ := exists_lineAt_of_fixFor hfix
  refine ⟨line, front, back, hat, fun hcategory => ?_, fun hcategory => ?_⟩
  · rw [hcategory] at hchange
    obtain ⟨d, x, rest, hd, hx, -, hguard⟩ := exists_of_guard hchange
    exact ⟨d, x, rest, hd, hx, htext.trans hguard,
      fun htested o => not_reported_of_tested hcategory hat hd htested,
      exists_reported_dereference hcategory hat hd hf hx⟩
  · rw [hcategory] at hchange
    obtain ⟨d, x, hd, hx, -, hrelease, -⟩ := exists_of_release hchange
    obtain ⟨hparts, hread, -⟩ :=
      leftmost_of_first? assignedAllocation_lawful assignedAllocation_consuming hd
    obtain ⟨y, gap, -, -, hgap, hcaptured, heq⟩ := exists_of_assignedAllocation (read_of_readAt hread)
    obtain rfl : x = y := List.singleton_inj.mp (hx.symm.trans hcaptured)
    have hline : line = d.behind.reverse ++ (x ++ gap) ++ ("malloc".toList ++ d.after) := by
      rw [hparts, heq]
      simp
    have hword : wordBehind (front ++ (d.behind.reverse ++ (x ++ gap))).reverse = false := by
      simp only [List.reverse_append, List.append_assoc]
      exact hgap.wordBehind _
    exact ⟨d, x, gap, hd, hx, hgap, hline, htext.trans hrelease,
      reported_allocation_iff hf hcategory hat hline hword⟩

theorem exists_finding_of_fixAt {category : Category} {n : Nat} {text new : String}
    (hline : n ∈ linesOf category text)
    (hfix : (fixAt category n text).map (·.replacementText) = some new) :
    ∃ f ∈ scan text, ∃ fix, f.category = category ∧ f.line = n ∧ fixFor f text = some fix ∧
      fix.replacementText = new := by
  obtain ⟨f, hf, rfl, rfl⟩ := mem_linesOf_iff.mp hline
  obtain ⟨fix, hfix, hnew⟩ := Option.map_eq_some_iff.mp hfix
  exact ⟨f, hf, fix, rfl, rfl, hfix, hnew⟩

def mixedText : String := "if (b && c) a->y = b->y;\np = malloc(4); q = p;"

/-- Both variables that the fixes name are reported. -/
theorem fixFor_names_mixed :
    (∃ f ∈ scan mixedText, ∃ fix o, f.category = .nullPointer ∧ fixFor f mixedText = some fix ∧
      fix.replacementText = "if (a != NULL) \x7b\n    if (b && c) a->y = b->y;\n\x7d" ∧
      ReportedAt mixedText f o ∧ o.captured = ["a".toList]) ∧
    (∃ f ∈ scan mixedText, ∃ fix o, f.category = .memoryLeak ∧ fixFor f mixedText = some fix ∧
      fix.replacementText = "free(p);" ∧ ReportedAt mixedText f o ∧ o.lineBefore = "p = ".toList) := by
  constructor
  · obtain ⟨f, hf, fix, hcategory, hline, hfix, hnew⟩ :=
      @exists_finding_of_fixAt .nullPointer 1 mixedText
        "if (a != NULL) \x7b\n    if (b && c) a->y = b->y;\n\x7d" (by decide +kernel) (by decide +kernel)
    obtain ⟨line, front, back, hat, hguard, -⟩ := fixFor_names_first hf hfix
    have hat' : LineAt mixedText.toList f.line "if (b && c) a->y = b->y;".toList []
        "\np = malloc(4); q = p;".toList := ⟨rfl, hline, by decide, Or.inl rfl, Or.inr ⟨_, rfl⟩⟩
    obtain ⟨rfl, rfl, rfl⟩ := hat.unique hat'
    obtain ⟨d, x, -, hd, hx, -, -, hreported⟩ := hguard hcategory
    have hfirst : (dereference.first? "if (b && c) a->y = b->y;".toList).map
        (fun d => (d.behind, d.captured, d.after))
        = some ("if (b && c) ".toList.reverse, ["a".toList], "y = b->y;".toList) := by decide +kernel
    rw [hd, Option.map_some, Option.some_inj, Prod.mk.injEq, Prod.mk.injEq, hx] at hfirst
    obtain ⟨hbehind, hname, hafter⟩ := hfirst
    cases hname
    rw [hbehind, hafter] at hreported
    obtain ⟨o, ho, hcaptured, -⟩ :=
      hreported (by decide +kernel) (by decide +kernel) (by decide +kernel)
    exact ⟨f, hf, fix, o, hcategory, hfix, hnew, ho, hcaptured⟩
  · obtain ⟨f, hf, fix, hcategory, hline, hfix, hnew⟩ :=
      @exists_finding_of_fixAt .memoryLeak 2 mixedText "free(p);" (by decide +kernel)
        (by decide +kernel)
    obtain ⟨line, front, back, hat, -, hrelease⟩ := fixFor_names_first hf hfix
    have hat' : LineAt mixedText.toList f.line "p = malloc(4); q = p;".toList
        "if (b && c) a->y = b->y;\n".toList [] :=
      ⟨rfl, hline, by decide, Or.inr ⟨"if (b && c) a->y = b->y;".toList, rfl⟩, Or.inl rfl⟩
    obtain ⟨rfl, rfl, rfl⟩ := hat.unique hat'
    obtain ⟨d, x, gap, hd, -, -, hparts, -, hreported⟩ := hrelease hcategory
    have hfirst : (assignedAllocation.first? "p = malloc(4); q = p;".toList).map
        (fun d => (d.behind, d.after)) = some ([], "(4); q = p;".toList) := by decide +kernel
    rw [hd, Option.map_some, Option.some_inj, Prod.mk.injEq] at hfirst
    rw [hfirst.1, hfirst.2] at hparts hreported
    have hplace : [].reverse ++ (x ++ gap) = "p = ".toList :=
      (@List.append_cancel_right _ _ "malloc(4); q = p;".toList _ hparts).symm
    rw [hplace] at hreported
    obtain ⟨o, ho, hbehind⟩ := (hreported (by decide +kernel)).mpr
      ⟨⟨[], " q = p;".toList⟩, by rfl, by decide +kernel⟩
    refine ⟨f, hf, fix, o, hcategory, hfix, hnew, ho, ?_⟩
    exact (hat.lineBefore rfl (hbehind.trans List.reverse_append)).2

def misnamedText : String := "if (a && a->x) b->y = 1;\np = malloc(4); free(p); \x7d q = malloc(5);"

/-- The guard tests a variable that is tested already, and the release names one that is released. -/
theorem fixFor_names_unreported :
    (∃ f ∈ scan misnamedText, ∃ fix, f.category = .nullPointer ∧ fixFor f misnamedText = some fix ∧
      fix.replacementText = "if (a != NULL) \x7b\n    if (a && a->x) b->y = 1;\n\x7d" ∧
      ∀ o, ReportedAt misnamedText f o → o.captured = ["b".toList]) ∧
    (∃ f ∈ scan misnamedText, ∃ fix, f.category = .memoryLeak ∧ fixFor f misnamedText = some fix ∧
      fix.replacementText = "free(p);" ∧
      ∀ o, ReportedAt misnamedText f o →
        o.lineBefore = "p = malloc(4); free(p); \x7d q = ".toList) := by
  constructor
  · obtain ⟨f, hf, fix, hcategory, -, hfix, hnew⟩ :=
      @exists_finding_of_fixAt .nullPointer 1 misnamedText
        "if (a != NULL) \x7b\n    if (a && a->x) b->y = 1;\n\x7d" (by decide +kernel) (by decide +kernel)
    refine ⟨f, hf, fix, hcategory, hfix, hnew, fun o ho => ?_⟩
    obtain ⟨hmem, hkeep, -⟩ := ho.of_rule dereferenceRule_mem hcategory
    have hall : ∀ o ∈ memberAccess.occurrences misnamedText.toList, isGuarded o = false →
        o.captured = ["b".toList] := by decide +kernel
    exact hall o hmem hkeep
  · obtain ⟨f, hf, fix, hcategory, -, hfix, hnew⟩ :=
      @exists_finding_of_fixAt .memoryLeak 2 misnamedText "free(p);" (by decide +kernel)
        (by decide +kernel)
    refine ⟨f, hf, fix, hcategory, hfix, hnew, fun o ho => ?_⟩
    obtain ⟨hmem, hkeep, -⟩ := ho.of_rule allocationRule_mem hcategory
    have hall : ∀ o ∈ allocation.occurrences misnamedText.toList, isReleased o = false →
        o.lineBefore = "p = malloc(4); free(p); \x7d q = ".toList := by decide +kernel
    exact hall o hmem hkeep

end Proposal

end DefectScan
