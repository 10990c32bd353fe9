import DefectScan.Proofs.ReadingPlaces
import DefectScan.Proposal

/-!
# The texts that the patterns of rules and fixes read

An endless loop, a declaration without a value and an allocation that ends with its semicolon, with
blanks in any number between their parts. Loops and declarations avoid themselves: a loop has its
first letter nowhere else, and a declaration inside of another would need a second word before the
semicolon. A fix looks for less than its rule: a dereference up to its arrow, and an allocation up to
the name of the function, behind the variable that it is assigned to.
-/

namespace DefectScan.Pattern

open Text

/-! ## Blanks and words -/

theorem not_mem_of_allBlank {w : List Char} (h : AllBlank w) {c : Char} (hc : isBlank c = false) :
    c ∉ w := by
  intro hmem
  rw [h c hmem] at hc
  cases hc

theorem not_mem_of_allWord {x : List Char} (h : AllWord x) {c : Char} (hc : isWord c = false) :
    c ∉ x := by
  intro hmem
  rw [h c hmem] at hc
  cases hc

theorem blanks_append {w : List Char} (h : AllBlank w) {c : Char} (hc : isBlank c = false)
    (rest : List Char) : blanks (w ++ c :: rest) = c :: rest :=
  (span_eq h hc rest).2

/-- What begins with blanks and then no word character does not begin with a word. -/
theorem head?_blanks_append {w : List Char} (hw : AllBlank w) {c : Char} (hc : isWord c = false)
    (rest : List Char) : ∀ d, (w ++ c :: rest).head? = some d → isWord d = false := by
  intro d hd
  cases w with
  | nil =>
    cases hd
    exact hc
  | cons e w =>
    cases hd
    exact isWord_of_isBlank (hw d List.mem_cons_self)

end DefectScan.Pattern

namespace DefectScan.Lexical

open Pattern Text

/-! ## Endless loops -/

/-- `while (1)` or `while (true)`. -/
inductive WhileText : List Char → List (List Char) → Prop
  | intro {a b truth c : List Char} (ha : AllBlank a) (hb : AllBlank b)
      (htruth : truth = ['1'] ∨ truth = "true".toList) (hc : AllBlank c) :
      WhileText ("while".toList ++ (a ++ '(' :: (b ++ (truth ++ (c ++ [')']))))) []

/-- `for (;;)`. -/
inductive ForText : List Char → List (List Char) → Prop
  | intro {a b c d : List Char} (ha : AllBlank a) (hb : AllBlank b) (hc : AllBlank c)
      (hd : AllBlank d) :
      ForText ("for".toList ++ (a ++ '(' :: (b ++ ';' :: (c ++ ';' :: (d ++ [')']))))) []

theorem WhileText.captured_eq {m : List Char} {captured : List (List Char)}
    (h : WhileText m captured) : captured = [] := by
  cases h
  rfl

theorem WhileText.head_eq {m : List Char} {captured : List (List Char)} (h : WhileText m captured) :
    ∃ t, m = 'w' :: t := by
  cases h
  exact ⟨_, rfl⟩

def LoopText (m : List Char) (captured : List (List Char)) : Prop :=
  WhileText m captured ∨ ForText m captured

theorem endlessWhile_spells : endlessWhile.Spells WhileText where
  startsWord := rfl
  ne_nil := by
    rintro _ _ ⟨⟩
    simp
  read_iff := by
    intro text hit
    simp only [endlessWhile, Option.bind_eq_bind, Option.bind_eq_some_iff, Option.orElse_eq_or,
      Option.or_eq_some_iff, word_eq_some_iff, mark_eq_some_iff (m := "(") rfl (by decide),
      mark_eq_some_iff (m := "1") rfl (by decide), mark_eq_some_iff (m := ")") rfl (by decide),
      mark_eq_some_iff (m := "true") rfl (by decide)]
    constructor
    · rintro ⟨_, rfl, _, ⟨a, ha, rfl⟩, inside, hinside, rest, ⟨c, hc, rfl⟩, hhit⟩
      cases hhit
      rcases hinside with ⟨b, hb, rfl⟩ | ⟨-, b, hb, rfl⟩
      · exact ⟨_, .intro ha hb (Or.inl rfl) hc, by simp⟩
      · exact ⟨_, .intro ha hb (Or.inr rfl) hc, by simp⟩
    · obtain ⟨captured, rest⟩ := hit
      rintro ⟨_, ⟨⟩, rfl⟩
      next a b truth c ha hb htruth hc =>
      refine ⟨_, List.append_assoc _ _ _, b ++ (truth ++ (c ++ ')' :: rest)), ⟨a, ha, by simp⟩,
        c ++ ')' :: rest, ?_, rest, ⟨c, hc, rfl⟩, rfl⟩
      rcases htruth with rfl | rfl
      · exact Or.inl ⟨b, hb, rfl⟩
      · refine Or.inr ⟨?_, b, hb, rfl⟩
        rw [mark, show "true".toList = 't' :: "rue".toList from rfl, List.cons_append,
          blanks_append hb (by decide)]
        rfl

theorem endlessFor_read_iff (text : List Char) (hit : Hit) : endlessFor.read text = some hit ↔
    ∃ m, ForText m hit.captured ∧ text = m ++ hit.rest := by
  simp only [endlessFor, Option.bind_eq_bind, Option.bind_eq_some_iff, word_eq_some_iff,
    mark_eq_some_iff (m := "(") rfl (by decide), mark_eq_some_iff (m := ";") rfl (by decide),
    mark_eq_some_iff (m := ")") rfl (by decide)]
  constructor
  · rintro ⟨_, rfl, _, ⟨a, ha, rfl⟩, _, ⟨b, hb, rfl⟩, _, ⟨c, hc, rfl⟩, rest, ⟨d, hd, rfl⟩, hhit⟩
    cases hhit
    exact ⟨_, .intro ha hb hc hd, by simp⟩
  · obtain ⟨captured, rest⟩ := hit
    rintro ⟨_, ⟨⟩, rfl⟩
    next a b c d ha hb hc hd =>
    exact ⟨_, List.append_assoc _ _ _, _, ⟨a, ha, by simp; rfl⟩, _, ⟨b, hb, rfl⟩, _, ⟨c, hc, rfl⟩,
      rest, ⟨d, hd, by simp⟩, rfl⟩

theorem endlessLoop_spells : endlessLoop.Spells LoopText where
  startsWord := rfl
  ne_nil := by
    intro m captured h
    rcases h with h | h
    · exact endlessWhile_spells.ne_nil h
    · cases h
      simp
  read_iff := by
    rintro text ⟨captured, rest⟩
    simp only [endlessLoop, Option.orElse_eq_or, Option.or_eq_some_iff,
      endlessWhile_spells.read_iff, endlessFor_read_iff]
    constructor
    · rintro (⟨m, hm, htext⟩ | ⟨-, m, hm, htext⟩)
      · exact ⟨m, Or.inl hm, htext⟩
      · exact ⟨m, Or.inr hm, htext⟩
    · rintro ⟨m, hm | hm, rfl⟩
      · exact Or.inl ⟨m, hm, rfl⟩
      · refine Or.inr ⟨?_, m, hm, rfl⟩
        -- the two kinds of loops begin with different letters
        cases hm
        rfl

/-- The letters of a loop: its first one only begins it, and it ends with a parenthesis. -/
theorem LoopText.letters {m : List Char} {captured : List (List Char)} (h : LoopText m captured) :
    (∃ x t, m = x :: t ∧ (x = 'w' ∨ x = 'f') ∧ ∀ y ∈ t, y ≠ 'w' ∧ y ≠ 'f' ∧ y ≠ '/') ∧
      ∃ t, m = t ++ [')'] := by
  have hblank : ∀ {w : List Char}, AllBlank w → ∀ y ∈ w, y ≠ 'w' ∧ y ≠ 'f' ∧ y ≠ '/' := by
    intro w hw y hy
    refine ⟨?_, ?_, ?_⟩ <;>
    · rintro rfl
      exact not_mem_of_allBlank hw (by decide) hy
  rcases h with h | h
  · cases h with
    | @intro a b truth c ha hb htruth hc =>
      refine ⟨⟨'w', "hile".toList ++ (a ++ '(' :: (b ++ (truth ++ (c ++ [')'])))), rfl, Or.inl rfl, ?_⟩,
        "while".toList ++ (a ++ '(' :: (b ++ (truth ++ c))), by simp⟩
      have htruth' : ∀ y ∈ truth, y ≠ 'w' ∧ y ≠ 'f' ∧ y ≠ '/' := by
        rcases htruth with rfl | rfl <;> simp
      simp only [List.forall_mem_append, List.forall_mem_cons]
      exact ⟨by simp, hblank ha, by decide, hblank hb, htruth', hblank hc, by decide, by simp⟩
  · cases h with
    | @intro a b c d ha hb hc hd =>
      refine ⟨⟨'f', "or".toList ++ (a ++ '(' :: (b ++ ';' :: (c ++ ';' :: (d ++ [')'])))), rfl,
        Or.inr rfl, ?_⟩,
        "for".toList ++ (a ++ '(' :: (b ++ ';' :: (c ++ ';' :: d))), by simp⟩
      simp only [List.forall_mem_append, List.forall_mem_cons]
      exact ⟨by simp, hblank ha, by decide, hblank hb, by decide, hblank hc, by decide, hblank hd,
        by decide, by simp⟩

/-- A loop begins nowhere in another. -/
theorem LoopText.avoids {a z m rest rest' : List Char} {captured captured' : List (List Char)}
    (h : LoopText (a ++ z) captured) (ha : a ≠ []) (hz : z ≠ []) (hm : LoopText m captured')
    (heq : z ++ rest = m ++ rest') : False := by
  obtain ⟨⟨x, t, hparts, -, ht⟩, -⟩ := h.letters
  obtain ⟨⟨y, u, rfl, hy, -⟩, -⟩ := hm.letters
  obtain ⟨e, a, rfl⟩ := List.exists_cons_of_ne_nil ha
  obtain ⟨d, z, rfl⟩ := List.exists_cons_of_ne_nil hz
  have hd : d ∈ t := by
    rw [← (List.cons.inj hparts).2]
    simp
  rw [(List.cons.inj heq).1] at hd
  rcases hy with rfl | rfl
  · exact (ht _ hd).1 rfl
  · exact (ht _ hd).2.1 rfl

theorem endlessLoop_selfAvoiding : endlessLoop.SelfAvoiding :=
  endlessLoop_spells.selfAvoiding fun h ha hz _ hm heq => h.avoids ha hz hm heq

theorem endlessWhile_selfAvoiding : endlessWhile.SelfAvoiding :=
  endlessWhile_spells.selfAvoiding fun h ha hz _ hm heq =>
    LoopText.avoids (Or.inl h) ha hz (Or.inl hm) heq

/-! ## Declarations -/

/-- `int variable ;`; the variable is captured. -/
inductive DeclarationText : List Char → List (List Char) → Prop
  | intro {a x b : List Char} (hane : a ≠ []) (ha : AllBlank a) (hxne : x ≠ []) (hx : AllWord x)
      (hb : AllBlank b) :
      DeclarationText ("int".toList ++ (a ++ (x ++ (b ++ [';'])))) [x]

theorem bareDeclaration_spells : bareDeclaration.Spells DeclarationText where
  startsWord := rfl
  ne_nil := by
    rintro _ _ ⟨⟩
    simp
  read_iff := by
    intro text hit
    simp only [bareDeclaration, Option.bind_eq_bind, Option.bind_eq_some_iff, word_eq_some_iff,
      mark_eq_some_iff (m := ";") rfl (by decide), someBlanks_eq_some_iff, Prod.exists,
      someWord_eq_some_iff]
    constructor
    · rintro ⟨_, rfl, _, ⟨a, hane, rfl, ha, -⟩, x, _, ⟨hxne, rfl, hx, -⟩, rest, ⟨b, hb, rfl⟩, hhit⟩
      cases hhit
      exact ⟨_, .intro hane ha hxne hx hb, by simp⟩
    · obtain ⟨captured, rest⟩ := hit
      rintro ⟨_, ⟨⟩, rfl⟩
      next a x b hane ha hxne hx hb =>
      have hhead : ∀ c, (x ++ (b ++ ';' :: rest)).head? = some c → isBlank c = false := by
        intro c hc
        obtain ⟨d, x, rfl⟩ := List.exists_cons_of_ne_nil hxne
        cases hc
        exact isBlank_of_isWord (hx c List.mem_cons_self)
      exact ⟨_, List.append_assoc _ _ _, _, ⟨a, hane, by simp, ha, hhead⟩, x, _,
        ⟨hxne, rfl, hx, head?_blanks_append hb (by decide) rest⟩, rest, ⟨b, hb, rfl⟩, rfl⟩

/-- A declaration has its semicolon at its end only, and nothing that assigns. -/
theorem DeclarationText.letters {m : List Char} {captured : List (List Char)}
    (h : DeclarationText m captured) : '=' ∉ m ∧ (∃ t, m = 'i' :: t) ∧ ∃ t, m = t ++ [';'] ∧ ';' ∉ t := by
  cases h with
  | @intro a x b _ ha _ hx hb =>
    refine ⟨?_, ⟨_, rfl⟩, "int".toList ++ (a ++ (x ++ b)), by simp, ?_⟩
    · simp only [List.mem_append, not_or]
      exact ⟨by decide, not_mem_of_allBlank ha (by decide), not_mem_of_allWord hx (by decide),
        not_mem_of_allBlank hb (by decide), by decide⟩
    · simp only [List.mem_append, not_or]
      exact ⟨by decide, not_mem_of_allBlank ha (by decide), not_mem_of_allWord hx (by decide),
        not_mem_of_allBlank hb (by decide)⟩

theorem DeclarationText.exists_captured {m : List Char} {captured : List (List Char)}
    (h : DeclarationText m captured) : ∃ x, captured = [x] := by
  cases h
  exact ⟨_, rfl⟩

theorem DeclarationText.allWord {m x : List Char} (h : DeclarationText m [x]) : AllWord x := by
  cases h with
  | intro _ _ _ hx _ => exact hx

/-- Read from its end, a declaration has one beginning. -/
theorem DeclarationText.eq_nil_of_append {a m m' : List Char} {captured captured' : List (List Char)}
    (h : DeclarationText m captured) (h' : DeclarationText m' captured') (heq : a ++ m = m') :
    a = [] := by
  cases h with
  | @intro c x b hcne hc hxne hx hb =>
    cases h' with
    | @intro c' x' b' hcne' hc' hxne' hx' hb' =>
      have hrev := congrArg List.reverse heq
      simp only [List.reverse_append, List.reverse_cons, List.reverse_nil, List.nil_append,
        List.append_assoc, List.cons_append, List.cons.injEq, true_and] at hrev
      have hback : ∀ {l : List Char} {q : Char → Bool}, (∀ y ∈ l, q y = true) →
          ∀ y ∈ l.reverse, q y = true := fun h y hy => h y (List.mem_reverse.mp hy)
      rw [← List.reverse_ne_nil_iff] at hcne hcne' hxne hxne'
      have htype : ∀ y ∈ "int".toList.reverse, isWord y = true := List.all_eq_true.mp (by decide)
      -- blanks, the variable, blanks and the type, one after the other
      obtain ⟨-, hrev⟩ := span_unique hrev
        (hback hb) (not_of_head?_append isBlank_of_isWord hxne (hback hx) _)
        (hback hb') (not_of_head?_append isBlank_of_isWord hxne' (hback hx') _)
      obtain ⟨-, hrev⟩ := span_unique hrev
        (hback hx) (not_of_head?_append isWord_of_isBlank hcne (hback hc) _)
        (hback hx') (not_of_head?_append isWord_of_isBlank hcne' (hback hc') _)
      rw [← List.append_nil "int".toList.reverse, List.append_assoc] at hrev
      obtain ⟨-, hrev⟩ := span_unique hrev
        (hback hc) (not_of_head?_append isBlank_of_isWord (by simp) htype _)
        (hback hc') (not_of_head?_append isBlank_of_isWord (by simp) htype _)
      simpa using hrev

/-- A declaration begins nowhere in another: both would end with the same semicolon. -/
theorem bareDeclaration_selfAvoiding : bareDeclaration.SelfAvoiding := by
  apply bareDeclaration_spells.selfAvoiding
  intro a z m rest rest' captured captured' h ha hz _ hm heq
  have hzm : z = m := by
    obtain ⟨-, -, t, ht, hsemi⟩ := h.letters
    obtain ⟨-, -, u, rfl, hsemi'⟩ := hm.letters
    obtain ⟨v, rfl, rfl⟩ := exists_of_concat_eq ht.symm hz
    have hv : ';' ∉ v := fun hmem => hsemi (List.mem_append_right a hmem)
    rw [List.append_assoc, List.append_assoc] at heq
    rw [(eq_of_append_cons hv hsemi' heq).1]
  exact ha (hm.eq_nil_of_append h (by rw [hzm]))

/-! ## Allocations -/

/-- `malloc ( ... ) ... ;` with no semicolon in between. -/
inductive AllocationText : List Char → List (List Char) → Prop
  | intro {w inside : List Char} (hw : AllBlank w) (hinside : ';' ∉ inside) (hclose : ')' ∈ inside) :
      AllocationText ("malloc".toList ++ (w ++ '(' :: (inside ++ [';']))) []

theorem allocation_spells : allocation.Spells AllocationText where
  startsWord := rfl
  ne_nil := by
    rintro _ _ ⟨⟩
    simp
  read_iff := by
    intro text hit
    simp only [allocation, Option.bind_eq_bind, Option.bind_eq_some_iff, word_eq_some_iff,
      mark_eq_some_iff (m := "(") rfl (by decide)]
    constructor
    · rintro ⟨_, rfl, opened, ⟨w, hw, rfl⟩, hstatement⟩
      obtain ⟨inside, tail, hopened, htake, hdrop, hinside⟩ := exists_span (p := (· ≠ ';')) opened
      have hend := List.head?_dropWhile_not (· ≠ ';') opened
      simp only [htake, hdrop] at hstatement hend
      cases tail with
      | nil => cases hstatement
      | cons c rest =>
        obtain rfl : c = ';' := by simpa using hend
        dsimp only at hstatement
        split at hstatement
        · next hclose =>
          cases hstatement
          have hplain : ';' ∉ inside := by
            intro hmem
            simpa using hinside _ hmem
          exact ⟨_, .intro hw hplain (by simpa using hclose), by simp [hopened]⟩
        · cases hstatement
    · obtain ⟨captured, rest⟩ := hit
      rintro ⟨_, ⟨⟩, rfl⟩
      next w inside hw hinside hclose =>
      have hrun : ∀ c ∈ inside, decide (c ≠ ';') = true :=
        fun c hc => decide_eq_true fun heq => hinside (heq ▸ hc)
      obtain ⟨htake, hdrop⟩ := span_eq (c := ';') hrun (by decide) rest
      refine ⟨_, List.append_assoc _ _ _, inside ++ ';' :: rest, ⟨w, hw, by simp⟩, ?_⟩
      simp only [htake, hdrop]
      simp [hclose]

/-- An allocation has its semicolon at its end only. -/
theorem AllocationText.last {m : List Char} {captured : List (List Char)}
    (h : AllocationText m captured) : ∃ t, m = t ++ [';'] ∧ ';' ∉ t := by
  cases h with
  | @intro w inside hw hinside _ =>
    refine ⟨"malloc".toList ++ (w ++ '(' :: inside), by simp, ?_⟩
    simp only [List.mem_append, List.mem_cons, not_or]
    exact ⟨by decide, not_mem_of_allBlank hw (by decide), by decide, hinside⟩

end DefectScan.Lexical

namespace DefectScan.Proposal

open Pattern Text

/-! ## Dereferences -/

theorem dereference_read_iff {text : List Char} {hit : Hit} :
    dereference.read text = some hit ↔ ∃ x w, x ≠ [] ∧ AllWord x ∧ AllBlank w ∧
      hit.captured = [x] ∧ text = x ++ (w ++ '-' :: '>' :: hit.rest) := by
  simp only [dereference, Option.bind_eq_bind, Option.bind_eq_some_iff, Prod.exists,
    someWord_eq_some_iff, mark_eq_some_iff (m := "->") rfl (by decide)]
  constructor
  · rintro ⟨x, _, ⟨hxne, rfl, hx, -⟩, rest, ⟨w, hw, rfl⟩, hhit⟩
    cases hhit
    exact ⟨x, w, hxne, hx, hw, rfl, rfl⟩
  · obtain ⟨captured, rest⟩ := hit
    rintro ⟨x, w, hxne, hx, hw, rfl, rfl⟩
    exact ⟨x, _, ⟨hxne, rfl, hx, head?_blanks_append hw (by decide) _⟩, rest, ⟨w, hw, rfl⟩, rfl⟩

theorem dereference_lawful : dereference.Lawful := by
  intro text hit hread
  obtain ⟨x, w, -, -, -, -, rfl⟩ := dereference_read_iff.mp hread
  exact ⟨x ++ (w ++ ['-', '>']), by simp⟩

theorem dereference_consuming : dereference.Consuming := by
  intro text hit hread
  obtain ⟨x, w, -, -, -, -, rfl⟩ := dereference_read_iff.mp hread
  simp only [List.length_append, List.length_cons]
  omega

/-! ## Assigned allocations -/

/-- What stands between a variable and the value that it is given, with a type in parentheses. -/
inductive AssignText : List Char → Prop
  | plain {a b : List Char} (ha : AllBlank a) (hb : AllBlank b) : AssignText (a ++ '=' :: b)
  | cast {a b type c : List Char} (ha : AllBlank a) (hb : AllBlank b) (htype : ')' ∉ type)
      (hc : AllBlank c) : AssignText (a ++ '=' :: (b ++ '(' :: (type ++ ')' :: c)))

theorem exists_of_assignedAllocation {text : List Char} {hit : Hit}
    (h : assignedAllocation.read text = some hit) :
    ∃ x gap, x ≠ [] ∧ AllWord x ∧ AssignText gap ∧ hit.captured = [x] ∧
      text = x ++ (gap ++ ("malloc".toList ++ hit.rest)) := by
  simp only [assignedAllocation, Option.bind_eq_bind, Option.bind_eq_some_iff, Prod.exists,
    someWord_eq_some_iff, mark_eq_some_iff (m := "=") rfl (by decide), word_eq_some_iff] at h
  obtain ⟨x, _, ⟨hxne, rfl, hx, -⟩, value, ⟨a, ha, rfl⟩, rest, hmalloc, hhit⟩ := h
  cases hhit
  obtain ⟨b, value', rfl, -, hdrop, hb⟩ := exists_span (p := isBlank) value
  rw [blanks, hdrop] at hmalloc
  split at hmalloc
  · next r hcast =>
    obtain ⟨opened, hopened, hclosed⟩ := Option.bind_eq_some_iff.mp hcast
    obtain ⟨type, tail, rfl, -, htail, htype⟩ := exists_span (p := (· ≠ ')')) opened
    rw [htail] at hclosed
    obtain ⟨c, malloc, rfl, -, hrest, hc⟩ := exists_span (p := isBlank) r
    rw [blanks, hrest] at hmalloc
    have hplain : ')' ∉ type := by
      intro hmem
      simpa using htype _ hmem
    refine ⟨x, _, hxne, hx, .cast ha hb hplain hc, rfl, ?_⟩
    rw [word_eq_some_iff.mp hopened, word_eq_some_iff.mp hclosed, hmalloc]
    simp
  · exact ⟨x, _, hxne, hx, .plain ha hb, rfl, by simp [hmalloc]⟩

/-- The value begins with a new word. -/
theorem AssignText.wordBehind {gap : List Char} (h : AssignText gap) (behind : List Char) :
    Pattern.wordBehind (gap.reverse ++ behind) = false := by
  have hlast : ∀ {c : Char} {front w : List Char}, isWord c = false → AllBlank w →
      Pattern.wordBehind ((front ++ c :: w).reverse ++ behind) = false := by
    intro c front w hc hw
    rcases List.eq_nil_or_concat w with rfl | ⟨u, d, rfl⟩
    · simpa using hc
    · simpa using isWord_of_isBlank (hw d (by simp))
  cases h with
  | plain ha hb => exact hlast (by decide) hb
  | @cast a b type c ha hb _ hc =>
    have hsplit : a ++ '=' :: (b ++ '(' :: (type ++ ')' :: c))
        = a ++ '=' :: (b ++ '(' :: type) ++ ')' :: c := by simp
    rw [hsplit]
    exact hlast (by decide) hc

theorem assignedAllocation_lawful : assignedAllocation.Lawful := by
  intro text hit hread
  obtain ⟨x, gap, -, -, -, -, rfl⟩ := exists_of_assignedAllocation hread
  exact ⟨x ++ (gap ++ "malloc".toList), by simp⟩

theorem assignedAllocation_consuming : assignedAllocation.Consuming := by
  intro text hit hread
  obtain ⟨x, gap, hxne, -, -, -, rfl⟩ := exists_of_assignedAllocation hread
  have := List.length_pos_iff.mpr hxne
  simp only [List.length_append]
  omega

end DefectScan.Proposal
