import DefectScan.Proofs.BoundedCalls
import DefectScan.Proofs.ReadingPlaces

/-!
# The calls that a line could be given bounds for

A call of one of three functions begins with its name and an open parenthesis. The number of such
places is additive where nothing runs over a joint:

    starts (text ++ ',' :: more) = starts text + starts more

A call that is given a bound has its arguments copied, and none of the copies has more such places
than the arguments had. The first argument has none, and the new names are not among the three. So
the number goes down by the one place of the call itself (`starts_bound`).
-/

namespace DefectScan.Proposal

open Pattern Text

/-! ## Names with an open parenthesis -/

/-- The functions whose calls are given a bound. -/
def boundableNames : List String := ["strcpy", "strcat", "gets"]

/-- The name of a function with an open parenthesis. -/
def readStart (f : String) (text : List Char) : Option Hit := do
  let rest ← mark "(" (← word f text)
  return ⟨[], rest⟩

def callStart : Pattern where
  startsWord := true
  read text := boundableNames.findSome? (readStart · text)

/-- The number of places in a line where such a call begins. -/
def starts (line : List Char) : Nat := (callStart.occurrences line).length

inductive StartText : List Char → List (List Char) → Prop
  | intro {f : String} {w : List Char} (hf : f ∈ boundableNames) (hw : AllBlank w) :
      StartText (f.toList ++ (w ++ ['('])) []

theorem readStart_eq_some_iff {f : String} {text : List Char} {hit : Hit} :
    readStart f text = some hit ↔
      ∃ w, AllBlank w ∧ hit.captured = [] ∧ text = f.toList ++ (w ++ '(' :: hit.rest) := by
  simp only [readStart, Option.bind_eq_bind, Option.bind_eq_some_iff, word_eq_some_iff,
    mark_eq_some_iff (m := "(") rfl (by decide)]
  constructor
  · rintro ⟨_, rfl, rest, ⟨w, hw, rfl⟩, hhit⟩
    cases hhit
    exact ⟨w, hw, rfl, rfl⟩
  · obtain ⟨captured, rest⟩ := hit
    rintro ⟨w, hw, rfl, rfl⟩
    exact ⟨_, rfl, rest, ⟨w, hw, rfl⟩, rfl⟩

/-- Where one of the names stands none of the others does. -/
theorem findSome?_readStart {f : String} (hf : f ∈ boundableNames) {text : List Char} {hit : Hit}
    (h : readStart f text = some hit) : boundableNames.findSome? (readStart · text) = some hit := by
  obtain ⟨w, hw, -, htext⟩ := readStart_eq_some_iff.mp h
  simp only [boundableNames, List.mem_cons, List.not_mem_nil, or_false] at hf
  rcases hf with rfl | rfl | rfl
  · simp [boundableNames, h]
  · have hcopy : readStart "strcpy" text = none := by rw [htext]; rfl
    simp [boundableNames, hcopy, h]
  · have hcopy : readStart "strcpy" text = none := by rw [htext]; rfl
    have hconcatenation : readStart "strcat" text = none := by rw [htext]; rfl
    simp [boundableNames, hcopy, hconcatenation, h]

theorem callStart_spells : callStart.Spells StartText where
  startsWord := rfl
  ne_nil := by
    rintro _ _ ⟨⟩
    simp
  read_iff := by
    rintro text ⟨captured, rest⟩
    constructor
    · intro h
      obtain ⟨f, hf, hread⟩ := List.exists_of_findSome?_eq_some h
      obtain ⟨w, hw, rfl, rfl⟩ := readStart_eq_some_iff.mp hread
      exact ⟨_, .intro hf hw, by simp⟩
    · rintro ⟨_, ⟨⟩, rfl⟩
      next f w hf hw =>
      exact findSome?_readStart hf (readStart_eq_some_iff.mpr ⟨w, hw, rfl, by simp⟩)

/-- The parenthesis stands at the end only. -/
theorem StartText.last {m : List Char} {captured : List (List Char)} (h : StartText m captured) :
    ∃ t, m = t ++ ['('] ∧ '(' ∉ t := by
  cases h with
  | @intro f w hf hw =>
    have hname : ∀ g ∈ boundableNames, '(' ∉ g.toList := by decide
    refine ⟨f.toList ++ w, by simp, ?_⟩
    rw [List.mem_append, not_or]
    exact ⟨hname f hf, fun hmem => (noParens_of_allBlank hw _ hmem).1 rfl⟩

theorem isWord_of_mem_name {f : String} (hf : f ∈ boundableNames) {c : Char} (hc : c ∈ f.toList) :
    isWord c = true := by
  have hall : ∀ g ∈ boundableNames, g.toList.all isWord = true := by decide
  exact List.all_eq_true.mp (hall f hf) c hc

/-- All characters are of a word, blank or the parenthesis. -/
theorem StartText.not_mem {m : List Char} {captured : List (List Char)} (h : StartText m captured)
    {c : Char} (hword : isWord c = false) (hblank : isBlank c = false) (hopen : c ≠ '(') : c ∉ m := by
  cases h with
  | @intro f w hf hw =>
    simp only [List.mem_append, List.mem_singleton, not_or]
    refine ⟨fun hmem => ?_, fun hmem => ?_, hopen⟩
    · rw [isWord_of_mem_name hf hmem] at hword
      cases hword
    · rw [hw c hmem] at hblank
      cases hblank

/-- Where a word goes on it has begun. -/
theorem StartText.wordBehind {m a z : List Char} {captured : List (List Char)}
    (h : StartText m captured) (hparts : m = a ++ z) (ha : a ≠ [])
    (hz : Pattern.wordBehind z = true) : Pattern.wordBehind a.reverse = true := by
  cases h with
  | @intro f w hf hw =>
    rcases List.append_eq_append_iff.mp hparts with ⟨beyond, -, hover⟩ | ⟨beyond, hname, -⟩
    · cases z with
      | nil => cases hz
      | cons c z =>
        -- what follows the name is no part of a word
        have hc : c ∈ w ++ ['('] := by rw [hover]; simp
        have hno : isWord c = false := by
          rcases List.mem_append.mp hc with hc | hc
          · exact isWord_of_isBlank (hw c hc)
          · rw [List.mem_singleton.mp hc]
            decide
        rw [wordBehind_cons, hno] at hz
        cases hz
    · obtain ⟨u, c, rfl⟩ : ∃ u c, a = u ++ [c] := ⟨_, _, (List.dropLast_concat_getLast ha).symm⟩
      rw [List.reverse_append]
      exact isWord_of_mem_name hf (by rw [hname]; simp)

theorem StartText.wordBehind_self {m : List Char} {captured : List (List Char)}
    (h : StartText m captured) (rest : List Char) : Pattern.wordBehind (m ++ rest) = true := by
  cases h with
  | @intro f w hf hw =>
    have hne : ∀ g ∈ boundableNames, g.toList ≠ [] := by decide
    obtain ⟨c, cs, hcs⟩ := List.exists_cons_of_ne_nil (hne f hf)
    rw [hcs]
    exact isWord_of_mem_name hf (by rw [hcs]; simp)

theorem callStart_selfAvoiding : callStart.SelfAvoiding := by
  apply callStart_spells.selfAvoiding
  intro a z m rest rest' captured captured' h ha hz hword hm heq
  have hstart := hm.wordBehind_self rest'
  rw [← heq, wordBehind_append hz] at hstart
  rw [h.wordBehind rfl ha hstart] at hword
  cases hword

/-! ## Counting -/

theorem starts_eq (behind : List Char) (hbehind : wordBehind behind = false) (text : List Char) :
    (linesWhere (callStart.reports fun _ => true) behind text).length = starts text := by
  rw [starts, length_occurrences callStart_spells.lawful callStart_spells.consuming
    callStart_selfAvoiding]
  apply length_linesWhere_congr
  intro a b _ _
  exact callStart.reports_congr (wordBehind_append_congr (hbehind.trans wordBehind_nil.symm) _) _ b

/-- The number is that of the parts, where nothing runs over the joint and no word goes on. -/
theorem starts_append {a b : List Char} (hab : Uncrossed StartText a b)
    (hword : wordBehind a.reverse = false) : starts (a ++ b) = starts a + starts b := by
  have hlines := callStart_spells.linesWhere_append hab []
  rw [List.append_nil] at hlines
  rw [← starts_eq [] wordBehind_nil (a ++ b), hlines, List.length_append,
    starts_eq [] wordBehind_nil, starts_eq _ hword]

/-- Nothing is read without a parenthesis. -/
theorem linesWhere_of_no_paren {text : List Char} (h : '(' ∉ text) (behind : List Char) :
    linesWhere (callStart.reports fun _ => true) behind text = [] := by
  apply linesWhere_eq_nil
  intro a b hab _
  apply reports_of_readAt_none
  cases hread : callStart.readAt (a.reverse ++ behind) b with
  | none => rfl
  | some hit =>
    obtain ⟨-, m, hm, rfl⟩ := callStart_spells.readAt_iff.mp hread
    obtain ⟨t, rfl, -⟩ := hm.last
    exact absurd (by rw [hab]; simp) h

theorem starts_of_no_paren {text : List Char} (h : '(' ∉ text) : starts text = 0 := by
  rw [← starts_eq [] wordBehind_nil, linesWhere_of_no_paren h]
  rfl

theorem starts_append_of_no_paren (a : List Char) {b : List Char} (hb : '(' ∉ b) :
    starts (a ++ b) = starts a := by
  have huncrossed : Uncrossed StartText a b := by
    intro front z beyond rest captured _ _ hover hover' hm
    obtain ⟨t, ht, -⟩ := hm.last
    obtain ⟨v, rfl, -⟩ := exists_of_concat_eq ht.symm hover
    exact hb (by rw [hover']; simp)
  rw [← starts_eq [] wordBehind_nil, callStart_spells.linesWhere_append huncrossed,
    linesWhere_of_no_paren hb, List.append_nil, starts_eq [] wordBehind_nil]

/-- A new word begins. -/
theorem starts_append_word {a b : List Char} (ha : wordBehind a.reverse = false)
    (hb : wordBehind b = true) : starts (a ++ b) = starts a + starts b := by
  apply starts_append _ ha
  intro front z beyond rest captured hfront hz hover hover' hm
  rw [hover', wordBehind_append hover] at hb
  rw [hfront, List.reverse_append, wordBehind_append (by simpa using hz), hm.wordBehind rfl hz hb] at ha
  cases ha

/-- A parenthesis is opened. -/
theorem starts_append_open (a b : List Char) :
    starts (a ++ '(' :: b) = starts (a ++ ['(']) + starts b := by
  rw [← List.singleton_append, ← List.append_assoc]
  apply starts_append
  · intro front z beyond rest captured hfront hz hover hover' hm
    obtain ⟨u, rfl, -⟩ := exists_of_concat_eq hfront hz
    obtain ⟨t, ht, hopen⟩ := hm.last
    obtain ⟨v, -, rfl⟩ := exists_of_concat_eq ht.symm hover
    exact hopen (by simp)
  · rw [List.reverse_append]
    exact (by decide : isWord '(' = false)

/-- A character that stands in none of these texts is passed over. -/
theorem starts_append_cons {c : Char} (hword : isWord c = false) (hblank : isBlank c = false)
    (hopen : c ≠ '(') (a b : List Char) : starts (a ++ c :: b) = starts a + starts b := by
  have hjoint : starts (a ++ [c] ++ b) = starts (a ++ [c]) + starts b := by
    apply starts_append
    · intro front z beyond rest captured hfront hz _ _ hm
      obtain ⟨u, rfl, -⟩ := exists_of_concat_eq hfront hz
      exact hm.not_mem hword hblank hopen (by simp)
    · rw [List.reverse_append]
      exact hword
  rw [← List.singleton_append, ← List.append_assoc, hjoint,
    starts_append_of_no_paren a (by simpa using hopen.symm)]

theorem starts_append_comma (a b : List Char) : starts (a ++ ',' :: b) = starts a + starts b :=
  starts_append_cons (by decide) (by decide) (by decide) a b

theorem starts_append_close (a b : List Char) : starts (a ++ ')' :: b) = starts a + starts b :=
  starts_append_cons (by decide) (by decide) (by decide) a b

theorem starts_blank_append {w : List Char} (hw : AllBlank w) (text : List Char) :
    starts (w ++ text) = starts text := by
  rcases List.eq_nil_or_concat w with rfl | ⟨u, c, rfl⟩
  · rfl
  · rw [List.concat_eq_append] at hw ⊢
    have hopen : '(' ∉ u ++ [c] := fun hmem => (noParens_of_allBlank hw _ hmem).1 rfl
    have hjoint : starts (u ++ [c] ++ text) = starts (u ++ [c]) + starts text := by
      apply starts_append
      · intro front z beyond rest captured hfront hz _ _ hm
        obtain ⟨d, z, rfl⟩ := List.exists_cons_of_ne_nil hz
        have hstart : isWord d = true := hm.wordBehind_self []
        rw [isWord_of_isBlank (hw d (by rw [hfront]; simp))] at hstart
        cases hstart
      · rw [List.reverse_append]
        exact isWord_of_isBlank (hw c (by simp))
    rw [hjoint, starts_of_no_paren hopen, Nat.zero_add]

/-- The places of an argument are those of the text it is written in. -/
theorem starts_argument {text d : List Char} (h : IsArgument text d) : starts text = starts d := by
  cases h with
  | @trimmed w d w' hw hw' =>
    rw [starts_blank_append hw,
      starts_append_of_no_paren d fun hmem => (noParens_of_allBlank hw' _ hmem).1 rfl]
  | blank hw => rw [starts_blank_append hw]

theorem starts_of_noParens {text : List Char} (h : NoParens text) : starts text = 0 :=
  starts_of_no_paren fun hmem => (h _ hmem).1 rfl

theorem Call.text_append (k : Call) (f : String) : k.text f ++ k.after
    = f.toList ++ (k.blanks ++ ['(']) ++ (k.inside ++ ')' :: k.after) := by
  simp [Call.text]

/-- A call counts for itself, for what is between its parentheses and for what stands behind it. -/
theorem starts_call {k : Call} {f : String} (hf : f ∈ boundableNames) (hw : AllBlank k.blanks) :
    starts (k.text f ++ k.after) = 1 + (starts k.inside + starts k.after) := by
  have hm : StartText (f.toList ++ (k.blanks ++ ['('])) [] := .intro hf hw
  have hread : callStart.readAt [] (f.toList ++ (k.blanks ++ ['(']) ++ (k.inside ++ ')' :: k.after))
      = some ⟨[], k.inside ++ ')' :: k.after⟩ :=
    callStart_spells.readAt_iff.mpr ⟨rfl, _, hm, rfl⟩
  have hlines := callStart_selfAvoiding.linesWhere_append (callStart_spells.ne_nil hm) hread
    fun _ => true
  have hword : wordBehind ((f.toList ++ (k.blanks ++ ['('])).reverse ++ []) = false := by
    rw [← List.append_assoc, List.reverse_append]
    exact (by decide : isWord '(' = false)
  rw [k.text_append, ← starts_eq [] wordBehind_nil, hlines, List.length_append, starts_eq _ hword,
    starts_append_close]
  rfl

/-! ## A call that is given a bound -/

/-- The parts of a call with a bound that stand before an open parenthesis. -/
def boundedNames : List (List Char) :=
  ["strncpy".toList, "strncat".toList, "fgets".toList, " sizeof".toList, " - strlen".toList]

theorem starts_boundedNames : ∀ name ∈ boundedNames, starts (name ++ ['(']) = 0 := by decide +kernel

section
variable {name d : List Char} (hname : name ∈ boundedNames) (hd : NoParens d)
include hname hd

theorem starts_opening_comma (rest : List Char) :
    starts (name ++ '(' :: (d ++ ',' :: rest)) = starts rest := by
  rw [starts_append_open, starts_append_comma, starts_boundedNames name hname,
    starts_of_noParens hd, Nat.zero_add, Nat.zero_add]

theorem starts_opening_close (rest : List Char) :
    starts (name ++ '(' :: (d ++ ')' :: rest)) = starts rest := by
  rw [starts_append_open, starts_append_close, starts_boundedNames name hname,
    starts_of_noParens hd, Nat.zero_add, Nat.zero_add]

end

theorem starts_blank_comma (source rest : List Char) :
    starts (' ' :: (source ++ ',' :: rest)) = starts source + starts rest := by
  have hblank : AllBlank [' '] := List.forall_mem_singleton.mpr (by decide)
  rw [← List.singleton_append, starts_blank_append hblank, starts_append_comma]

theorem starts_ending {ending : List Char} (h : '(' ∉ ending) (after : List Char) :
    starts (ending ++ ')' :: after) = starts after := by
  rw [starts_append_close, starts_of_no_paren h, Nat.zero_add]

theorem starts_strncpy {d : List Char} (hd : NoParens d) (source after : List Char) :
    starts ("strncpy(".toList ++ d ++ ", ".toList ++ source ++ ", sizeof(".toList ++ d
      ++ ") - 1)".toList ++ after) = starts source + starts after := by
  have hparts : "strncpy(".toList ++ d ++ ", ".toList ++ source ++ ", sizeof(".toList ++ d
        ++ ") - 1)".toList ++ after
      = "strncpy".toList ++ '(' :: (d ++ ',' :: (' ' :: (source ++ ',' :: (" sizeof".toList ++
          '(' :: (d ++ ')' :: (" - 1".toList ++ ')' :: after)))))) := by
    simp
  rw [hparts, starts_opening_comma (by decide) hd, starts_blank_comma,
    starts_opening_close (by decide) hd, starts_ending (by decide)]

theorem starts_strncat {d : List Char} (hd : NoParens d) (source after : List Char) :
    starts ("strncat(".toList ++ d ++ ", ".toList ++ source ++ ", sizeof(".toList ++ d
      ++ ") - strlen(".toList ++ d ++ ") - 1)".toList ++ after) = starts source + starts after := by
  have hparts : "strncat(".toList ++ d ++ ", ".toList ++ source ++ ", sizeof(".toList ++ d
        ++ ") - strlen(".toList ++ d ++ ") - 1)".toList ++ after
      = "strncat".toList ++ '(' :: (d ++ ',' :: (' ' :: (source ++ ',' :: (" sizeof".toList ++
          '(' :: (d ++ ')' :: (" - strlen".toList ++
            '(' :: (d ++ ')' :: (" - 1".toList ++ ')' :: after)))))))) := by
    simp
  rw [hparts, starts_opening_comma (by decide) hd, starts_blank_comma,
    starts_opening_close (by decide) hd, starts_opening_close (by decide) hd,
    starts_ending (by decide)]

theorem starts_fgets {d : List Char} (hd : NoParens d) (after : List Char) :
    starts ("fgets(".toList ++ d ++ ", sizeof(".toList ++ d ++ "), stdin)".toList ++ after)
      = starts after := by
  have hparts : "fgets(".toList ++ d ++ ", sizeof(".toList ++ d ++ "), stdin)".toList ++ after
      = "fgets".toList ++ '(' :: (d ++ ',' :: (" sizeof".toList ++
          '(' :: (d ++ ')' :: (", stdin".toList ++ ')' :: after)))) := by
    simp
  rw [hparts, starts_opening_comma (by decide) hd,
    starts_opening_close (by decide) hd, starts_ending (by decide)]

theorem CopyArguments.starts_eq {inside d source : List Char}
    (h : CopyArguments inside [d, source]) : NoParens d ∧ starts inside = starts source := by
  cases h with
  | intro ha _ _ hd hsource =>
    refine ⟨fun c hc => ha c (hd.subset hc), ?_⟩
    rw [starts_append_comma, starts_of_noParens ha, Nat.zero_add, starts_argument hsource]

/-- What is put in for a call has the places of its arguments, without that of the call. -/
theorem Bounds.starts_eq {line new : List Char} {f : String} {k : Call} (h : Bounds line f k new) :
    f ∈ boundableNames ∧ wordBehind (new ++ k.after) = true ∧
      starts (new ++ k.after) = starts k.inside + starts k.after := by
  have hletters : isWord 's' = true ∧ isWord 'f' = true := by decide
  cases h with
  | copy hk harguments =>
    obtain ⟨hd, hinside⟩ := CopyArguments.starts_eq (harguments ▸ hk.isIn.arguments)
    exact ⟨by decide, hletters.1, by rw [starts_strncpy hd, hinside]⟩
  | concatenation _ hk harguments =>
    obtain ⟨hd, hinside⟩ := CopyArguments.starts_eq (harguments ▸ hk.isIn.arguments)
    exact ⟨by decide, hletters.1, by rw [starts_strncat hd, hinside]⟩
  | read _ _ hk harguments =>
    have hin := hk.isIn.arguments
    rw [harguments] at hin
    cases hin with
    | intro ha hd =>
      have hplain : NoParens _ := fun c hc => ha c (hd.subset hc)
      exact ⟨by decide, hletters.2, by
        rw [starts_fgets hplain, starts_of_noParens ha, Nat.zero_add]⟩

/-- A line that is given a bound has one place less. -/
theorem starts_bound {line : List Char} {c : Change} (h : bound line = some c) :
    starts c.text + 1 = starts line := by
  obtain ⟨f, k, new, hbounds, htext, -⟩ := exists_bounds h
  obtain ⟨hf, hword, hnew⟩ := hbounds.starts_eq
  obtain ⟨hparts, hstart, hblanks, -⟩ := hbounds.simpleCall
  have hbefore := wordStart_iff.mp hstart
  have hcall : wordBehind (k.text f ++ k.after) = true := by
    have hm : StartText (f.toList ++ (k.blanks ++ ['('])) [] := .intro hf hblanks
    rw [k.text_append]
    exact hm.wordBehind_self _
  rw [htext, hparts, starts_append_word hbefore hword, starts_append_word hbefore hcall, hnew,
    starts_call hf hblanks]
  omega

end DefectScan.Proposal
