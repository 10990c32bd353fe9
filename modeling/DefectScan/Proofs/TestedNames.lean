import DefectScan.Proofs.MatchedLines

/-!
# Names that are tested before they are used

The rule for dereferences discards one whose variable is tested before it on the line, with `&&` or
with `!= NULL &&` behind the name (`TestText`). The name has to stand there as a whole, and so the
rule looks at the character before it. The search for the name leaves out what overlaps with a place
that it has found, but it never leaves out a whole name: what runs into it from before would put a
character of the name directly before it.

    WordStart before → (before.getLast?, rest) ∈ places x none (before ++ (x ++ rest))

The names are read by one class of characters, `isWord`, and the character before them is judged by
another, `isNameChar`. That one also has numbers that no name can have, such as `²`, and it lacks most
marks, the joining controls and all connecting punctuation but `_`, which names can have. Where both
classes say the same of the characters before the tested places, as they do of all ASCII characters,
a dereference is left out exactly if its variable is tested as a whole:

    Unreported text .nullPointer o ↔ TestedWhole x o.lineBefore
-/

namespace DefectScan

open Text Pattern

namespace Lexical

/-! ## Tests -/

/-- What makes a test of the name before it. -/
inductive TestText : List Char → Prop
  | plain {a : List Char} (ha : AllBlank a) : TestText (a ++ "&&".toList)
  | null {a b c : List Char} (ha : AllBlank a) (hb : AllBlank b) (hc : AllBlank c) :
      TestText (a ++ ("!=".toList ++ (b ++ ("NULL".toList ++ (c ++ "&&".toList)))))

theorem testsPrevious_iff_testText {text : List Char} :
    testsPrevious text = true ↔ ∃ test rest, TestText test ∧ text = test ++ rest := by
  rw [testsPrevious_iff]
  constructor
  · rintro ⟨a, rest, ha, rfl | ⟨b, c, hb, hc, rfl⟩⟩
    · exact ⟨_, rest, .plain ha, by simp⟩
    · exact ⟨_, rest, .null ha hb hc, by simp⟩
  · rintro ⟨test, rest, htest, rfl⟩
    cases htest with
    | plain ha => exact ⟨_, rest, ha, Or.inl (by simp)⟩
    | null ha hb hc => exact ⟨_, rest, ha, Or.inr ⟨_, _, hb, hc, by simp⟩⟩

/-- On a line a name stands behind some text, and a test of it follows. -/
def TestedBehind (x line before : List Char) : Prop :=
  ∃ test rest, TestText test ∧ line = before ++ (x ++ (test ++ rest))

/-- A name is tested on a line, and no character of a word stands directly before it. -/
def TestedWhole (x line : List Char) : Prop := ∃ before, TestedBehind x line before ∧ WordStart before

/-- The character directly before is none of those that the rule takes for a part of the name. -/
def NameStart (before : List Char) : Prop := ∀ c, before.getLast? = some c → isNameChar c = false

theorem nameStart_iff {before : List Char} :
    NameStart before ↔ (before.getLast?.map isNameChar).getD false = false := by
  unfold NameStart
  cases before.getLast? <;> simp

/-! ## The places of a name -/

/-- Where the search finds a name, it stands. -/
theorem exists_of_mem_places {x text rest : List Char} {behind b : Option Char}
    (h : (b, rest) ∈ places x behind text) :
    ∃ before, text = before ++ (x ++ rest) ∧ b = before.getLast?.or behind := by
  induction behind, text using places.induct x with
  | case1 behind => simp [places] at h
  | case2 behind c cs r hread hlt ih =>
    rw [places, hread] at h
    simp only [if_pos hlt] at h
    have htext := literal_eq_some_iff.mp hread
    rcases List.mem_cons.mp h with h | h
    · cases h
      exact ⟨[], htext, rfl⟩
    · obtain ⟨before, hbefore, rfl⟩ := ih h
      have hx : x ≠ [] := ne_nil_of_length_lt htext.symm hlt
      refine ⟨x ++ before, by rw [htext, hbefore, List.append_assoc], ?_⟩
      rw [List.getLast?_append, Option.or_assoc, List.getLast?_eq_getLast_of_ne_nil hx, Option.some_or]
  | case3 behind c cs r hread hnlt ih =>
    rw [places, hread] at h
    simp only [if_neg hnlt] at h
    obtain ⟨before, rfl, rfl⟩ := ih h
    exact ⟨c :: before, rfl, by simp [List.getLast?_cons]⟩
  | case4 behind c cs hread ih =>
    rw [places, hread] at h
    obtain ⟨before, rfl, rfl⟩ := ih h
    exact ⟨c :: before, rfl, by simp [List.getLast?_cons]⟩

/-- The search finds a name wherever no character of a word stands directly before it. -/
theorem mem_places_of_wordStart {x text before rest : List Char} (hxne : x ≠ []) (hx : AllWord x)
    (htext : text = before ++ (x ++ rest)) (hstart : WordStart before) (behind : Option Char) :
    (before.getLast?.or behind, rest) ∈ places x behind text := by
  induction behind, text using places.induct x generalizing before with
  | case1 behind =>
    obtain ⟨-, hnil⟩ := List.append_eq_nil_iff.mp htext.symm
    exact absurd (List.append_eq_nil_iff.mp hnil).1 hxne
  | case2 behind c cs r hread hlt ih =>
    rw [places, hread]
    simp only [if_pos hlt]
    have hfound := literal_eq_some_iff.mp hread
    rcases List.append_eq_append_iff.mp (hfound.symm.trans htext) with ⟨more, rfl, hr⟩ | ⟨z, hz, hr⟩
    · -- the name was found earlier, and the place lies behind it
      have hmore : more ≠ [] := by
        rintro rfl
        rw [List.append_nil] at hstart
        have hword := hstart _ (List.getLast?_eq_getLast_of_ne_nil hxne)
        rw [hx _ (List.getLast_mem hxne)] at hword
        cases hword
      have hlast : (x ++ more).getLast? = more.getLast? := by
        rw [List.getLast?_append, List.getLast?_eq_getLast_of_ne_nil hmore, Option.some_or]
      have hmem := ih hr fun c hc => hstart c (hlast.trans hc)
      rw [List.getLast?_eq_getLast_of_ne_nil hmore, Option.some_or] at hmem
      rw [hlast, List.getLast?_eq_getLast_of_ne_nil hmore, Option.some_or]
      exact List.mem_cons_of_mem _ hmem
    · cases before with
      | nil =>
        rw [List.nil_append] at hz
        rw [← hz] at hr
        rw [← List.append_cancel_left hr]
        exact List.mem_cons_self
      | cons d before =>
        -- the name that was found runs into the place, so it has the character before it
        have hne : d :: before ≠ [] := List.cons_ne_nil d before
        have hmem : (d :: before).getLast hne ∈ x := by
          rw [hz]
          exact List.mem_append_left z (List.getLast_mem hne)
        have hword := hstart _ (List.getLast?_eq_getLast_of_ne_nil hne)
        rw [hx _ hmem] at hword
        cases hword
  | case3 behind c cs r hread hnlt ih =>
    have hlength := congrArg List.length (literal_eq_some_iff.mp hread)
    have hpos := List.length_pos_iff.mpr hxne
    rw [List.length_append] at hlength
    omega
  | case4 behind c cs hread ih =>
    rw [places, hread]
    cases before with
    | nil =>
      rw [List.nil_append, ← literal_eq_some_iff, hread] at htext
      cases htext
    | cons d before =>
      obtain ⟨rfl, hcs⟩ := List.cons.inj htext
      have hlast : (c :: before).getLast?.or behind = before.getLast?.or (some c) := by
        simp [List.getLast?_cons]
      rw [hlast]
      refine ih hcs fun e he => hstart e ?_
      rw [List.getLast?_cons, he]
      rfl

theorem exists_of_isTested {x line : List Char} (h : isTested x line = true) :
    ∃ before, TestedBehind x line before ∧ NameStart before := by
  obtain ⟨⟨b, rest⟩, hmem, htest⟩ := List.any_eq_true.mp h
  rw [Bool.and_eq_true, Bool.not_eq_true'] at htest
  obtain ⟨before, hline, rfl⟩ := exists_of_mem_places hmem
  obtain ⟨test, rest, htext, rfl⟩ := testsPrevious_iff_testText.mp htest.2
  rw [Option.or_none] at htest
  exact ⟨before, ⟨test, rest, htext, hline⟩, nameStart_iff.mpr htest.1⟩

theorem isTested_of_testedBehind {x line before : List Char} (hxne : x ≠ []) (hx : AllWord x)
    (h : TestedBehind x line before) (hword : WordStart before) (hname : NameStart before) :
    isTested x line = true := by
  obtain ⟨test, rest, htest, hline⟩ := h
  have hmem := mem_places_of_wordStart hxne hx hline hword none
  rw [Option.or_none] at hmem
  refine List.any_eq_true.mpr ⟨_, hmem, ?_⟩
  rw [Bool.and_eq_true, Bool.not_eq_true']
  exact ⟨nameStart_iff.mp hname, testsPrevious_iff_testText.mpr ⟨test, rest, htest, rfl⟩⟩

/-! ## The two classes of characters -/

/-- They agree on the characters directly before the places where a name is tested. -/
def ClassesAgree (x line : List Char) : Prop :=
  ∀ before c, TestedBehind x line before → before.getLast? = some c → isNameChar c = isWord c

theorem isNameChar_eq_isWord {c : Char} (h : c.toNat < 128) : isNameChar c = isWord c := by
  have hpoints : ∀ n < 128, (inRanges n alphanumericRanges || decide (n = '_'.toNat))
      = inRanges n wordRanges := by decide
  have hunderscore : decide (c = '_') = decide (c.toNat = '_'.toNat) :=
    decide_eq_decide.mpr Char.toNat_inj.symm
  rw [isNameChar, hunderscore]
  exact hpoints c.toNat h

theorem classesAgree_of_ascii {line : List Char} (h : ∀ c ∈ line, c.toNat < 128) (x : List Char) :
    ClassesAgree x line := by
  rintro before c ⟨test, rest, -, rfl⟩ hc
  exact isNameChar_eq_isWord (h c (List.mem_append_left _ (List.mem_of_getLast? hc)))

theorem isTested_iff_testedWhole {x line : List Char} (hxne : x ≠ []) (hx : AllWord x)
    (h : ClassesAgree x line) : isTested x line = true ↔ TestedWhole x line := by
  constructor
  · intro htested
    obtain ⟨before, hbehind, hname⟩ := exists_of_isTested htested
    exact ⟨before, hbehind, fun c hc => (h before c hbehind hc).symm.trans (hname c hc)⟩
  · rintro ⟨before, hbehind, hword⟩
    exact isTested_of_testedBehind hxne hx hbehind hword
      fun c hc => (h before c hbehind hc).trans (hword c hc)

/-! ## Main result -/

/-- No finding of the category is made on the occurrence. -/
def Unreported (text : String) (category : Category) (o : Occurrence) : Prop :=
  ∀ f, f.category = category → ¬ ReportedAt text f o

theorem unreported_iff {text : String} {r : Rule} (hr : r ∈ rules) {o : Occurrence}
    (ho : o ∈ r.pattern.occurrences text.toList) :
    Unreported text r.category o ↔ r.discards o = true := by
  constructor
  · intro h
    cases hkeep : r.discards o with
    | true => rfl
    | false => exact absurd ⟨r, hr, ho, hkeep, rfl⟩ (h (r.finding o) rfl)
  · intro hdiscards f hcategory hreported
    obtain ⟨-, hkeep, -⟩ := hreported.of_rule hr hcategory
    rw [hdiscards] at hkeep
    cases hkeep

/-- The variable that a dereference captures. -/
theorem exists_variable {text : List Char} {o : Occurrence} (h : o ∈ memberAccess.occurrences text) :
    ∃ x, o.captured = [x] ∧ x ≠ [] ∧ AllWord x := by
  have hread := read_of_readAt (readAt_of_mem_occurrencesFrom memberAccess_lawful h)
  rw [memberAccess_read, Option.bind_eq_some_iff] at hread
  obtain ⟨hit, hhit, hmember⟩ := hread
  obtain ⟨member, -, hcaptured⟩ := Option.map_eq_some_iff.mp hmember
  obtain ⟨x, w, hxne, hx, -, hx', -⟩ := Proposal.dereference_read_iff.mp hhit
  exact ⟨x, (congrArg Hit.captured hcaptured).symm.trans hx', hxne, hx⟩

/-- A dereference is left out if its variable is tested before it on the line with neither a character
of a word nor one that the rule takes for a part of a name directly before, and only if it is tested
there with none of the latter directly before. So where the two classes of characters agree on what
stands before the tested places, as they do in an ASCII text, it is left out exactly if the variable
is tested as a whole. -/
theorem unreported_iff_testedWhole {text : String} {o : Occurrence}
    (ho : MatchedAt text .nullPointer o) :
    ∃ x, o.captured = [x] ∧
      (∀ before, TestedBehind x o.lineBefore before → WordStart before → NameStart before →
        Unreported text .nullPointer o) ∧
      (Unreported text .nullPointer o →
        ∃ before, TestedBehind x o.lineBefore before ∧ NameStart before) ∧
      (ClassesAgree x o.lineBefore →
        (Unreported text .nullPointer o ↔ TestedWhole x o.lineBefore)) ∧
      ((∀ c ∈ o.lineBefore, c.toNat < 128) →
        (Unreported text .nullPointer o ↔ TestedWhole x o.lineBefore)) := by
  have hmem := (matchedAt_iff dereferenceRule_mem).mp ho
  obtain ⟨x, hcaptured, hxne, hx⟩ := exists_variable hmem
  have hunreported : Unreported text .nullPointer o ↔ isTested x o.lineBefore = true := by
    rw [← isGuarded_eq hcaptured]
    exact unreported_iff dereferenceRule_mem hmem
  refine ⟨x, hcaptured, fun before hbehind hword hname => ?_, fun h => ?_, fun hagree => ?_,
    fun hascii => ?_⟩
  · exact hunreported.mpr (isTested_of_testedBehind hxne hx hbehind hword hname)
  · exact exists_of_isTested (hunreported.mp h)
  · exact hunreported.trans (isTested_iff_testedWhole hxne hx hagree)
  · exact hunreported.trans (isTested_iff_testedWhole hxne hx (classesAgree_of_ascii hascii x))

/-- An occurrence in a text that is computed from it. -/
theorem exists_memberAccess {text : String} {x before : List Char} {guarded : Bool}
    (h : ((memberAccess.occurrences text.toList).any fun o =>
      o.captured = [x] && o.lineBefore = before && isGuarded o = guarded) = true) :
    ∃ o, MatchedAt text .nullPointer o ∧ o.captured = [x] ∧ o.lineBefore = before ∧
      (Unreported text .nullPointer o ↔ guarded = true) := by
  obtain ⟨o, hmem, ho⟩ := List.any_eq_true.mp h
  simp only [Bool.and_eq_true, decide_eq_true_eq] at ho
  obtain ⟨⟨hcaptured, hbefore⟩, rfl⟩ := ho
  exact ⟨o, (matchedAt_iff dereferenceRule_mem).mpr hmem, hcaptured, hbefore,
    unreported_iff dereferenceRule_mem hmem⟩

/-- Behind a longer name that is tested the dereference is reported, and behind the name itself not. -/
theorem unreported_behind_whole_name :
    (∃ o, MatchedAt "ab && b!= NULL\t&& b->x;" .nullPointer o ∧ o.captured = [['b']] ∧
      TestedWhole ['b'] o.lineBefore ∧ Unreported "ab && b!= NULL\t&& b->x;" .nullPointer o) ∧
    ∃ o, MatchedAt "ab && b->x;" .nullPointer o ∧ o.captured = [['b']] ∧
      ¬ TestedWhole ['b'] o.lineBefore ∧ ¬ Unreported "ab && b->x;" .nullPointer o := by
  constructor
  · obtain ⟨o, hmatched, hcaptured, hbefore, hunreported⟩ := @exists_memberAccess
      "ab && b!= NULL\t&& b->x;" ['b'] "ab && b!= NULL\t&& ".toList true (by decide +kernel)
    obtain ⟨x, hx, -, -, -, hascii⟩ := unreported_iff_testedWhole hmatched
    obtain rfl : ['b'] = x := List.singleton_inj.mp (hcaptured.symm.trans hx)
    have hunreported := hunreported.mpr rfl
    have htested := (hascii (by rw [hbefore]; simp)).mp hunreported
    exact ⟨o, hmatched, hcaptured, htested, hunreported⟩
  · obtain ⟨o, hmatched, hcaptured, hbefore, hunreported⟩ := @exists_memberAccess
      "ab && b->x;" ['b'] "ab && ".toList false (by decide +kernel)
    obtain ⟨x, hx, -, -, -, hascii⟩ := unreported_iff_testedWhole hmatched
    obtain rfl : ['b'] = x := List.singleton_inj.mp (hcaptured.symm.trans hx)
    have hreported := hunreported.not.mpr Bool.false_ne_true
    have htested := (hascii (by rw [hbefore]; simp)).not.mp hreported
    exact ⟨o, hmatched, hcaptured, htested, hreported⟩

/-- Behind an accent the name of another variable is taken for the whole one. Behind a superscript,
which no name can have, a whole name is not. -/
theorem unreported_behind_accent :
    (∃ o, MatchedAt "e\u0301p && p->n;" .nullPointer o ∧ o.captured = [['p']] ∧
      ¬ TestedWhole ['p'] o.lineBefore ∧ Unreported "e\u0301p && p->n;" .nullPointer o) ∧
    ∃ o, MatchedAt "\u00b2p && p->n;" .nullPointer o ∧ o.captured = [['p']] ∧
      TestedWhole ['p'] o.lineBefore ∧ ¬ Unreported "\u00b2p && p->n;" .nullPointer o := by
  constructor
  · obtain ⟨o, hmatched, hcaptured, hbefore, hunreported⟩ := @exists_memberAccess
      "e\u0301p && p->n;" ['p'] "e\u0301p && ".toList true (by decide +kernel)
    refine ⟨o, hmatched, hcaptured, ?_, hunreported.mpr rfl⟩
    rw [hbefore]
    rintro ⟨before, ⟨test, rest, -, hline⟩, hword⟩
    have hcount := congrArg (List.count 'p') hline
    have hone : "e\u0301p && ".toList.count 'p' = 1 := by decide
    rw [hone, List.count_append, List.singleton_append, List.count_cons_self] at hcount
    have hnot : 'p' ∉ before := List.count_eq_zero.mp (by omega)
    obtain ⟨rfl, -⟩ := @eq_of_append_cons 'p' "e\u0301".toList " && ".toList before (test ++ rest)
      (by decide) hnot hline
    exact absurd (hword '\u0301' rfl) (by decide)
  · obtain ⟨o, hmatched, hcaptured, hbefore, hunreported⟩ := @exists_memberAccess
      "\u00b2p && p->n;" ['p'] "\u00b2p && ".toList false (by decide +kernel)
    refine ⟨o, hmatched, hcaptured, ?_, hunreported.not.mpr Bool.false_ne_true⟩
    rw [hbefore]
    have hblank : AllBlank [' '] := by simp [AllBlank]; decide
    refine ⟨['\u00b2'], ⟨[' '] ++ "&&".toList, [' '], .plain hblank, rfl⟩, ?_⟩
    rintro _ ⟨⟩
    decide

end Lexical

end DefectScan
