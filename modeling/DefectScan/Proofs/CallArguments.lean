import DefectScan.Proofs.FirstOccurrence
import DefectScan.Proposal
import Mathlib.Data.List.TakeWhile

/-!
# The arguments of calls

The arguments that can be rewritten have a simple form: one or two texts, without the blanks around
them (`IsArgument`), the first without parentheses and the second with single pairs of them only
(`Flat`). In such a text a parenthesis that is closed was opened in it, so the call ends where its own
parenthesis is closed:

    Flat inside → ClosesFirst inside
-/

namespace DefectScan.Proposal

open Pattern Text

/-! ## Parentheses -/

def NoParens (text : List Char) : Prop := ∀ c ∈ text, c ≠ '(' ∧ c ≠ ')'

/-- Parentheses only in pairs with none between them. -/
inductive Flat : List Char → Prop
  | nil : Flat []
  | char {c : Char} {text : List Char} (hc : c ≠ '(' ∧ c ≠ ')') (h : Flat text) : Flat (c :: text)
  | pair {group text : List Char} (hgroup : NoParens group) (h : Flat text) :
      Flat ('(' :: (group ++ ')' :: text))

theorem Flat.append_left {front text : List Char} (hfront : NoParens front) (h : Flat text) :
    Flat (front ++ text) := by
  induction front with
  | nil => exact h
  | cons c front ih =>
    obtain ⟨hc, hfront⟩ := List.forall_mem_cons.mp hfront
    exact .char hc (ih hfront)

theorem NoParens.flat {text : List Char} (h : NoParens text) : Flat text := by
  simpa using Flat.append_left h .nil

theorem Flat.of_append_left {front text : List Char} (hfront : NoParens front)
    (h : Flat (front ++ text)) : Flat text := by
  induction front with
  | nil => exact h
  | cons c front ih =>
    obtain ⟨hc, hrest⟩ := List.forall_mem_cons.mp hfront
    generalize hwhole : c :: front ++ text = whole at h
    cases h with
    | nil => cases hwhole
    | char _ h =>
      cases hwhole
      exact ih hrest h
    | pair => exact absurd (List.cons.inj hwhole).1 hc.1

/-- What ends a flat text without parentheses can be cut off: it holds the end of no pair. -/
theorem Flat.of_append_right {text tail : List Char} (htail : NoParens tail)
    (h : Flat (text ++ tail)) : Flat text := by
  generalize hwhole : text ++ tail = whole at h
  induction h generalizing text with
  | nil =>
    obtain ⟨rfl, -⟩ := List.append_eq_nil_iff.mp hwhole
    exact .nil
  | @char c rest hc _ ih =>
    cases text with
    | nil => exact .nil
    | cons d text =>
      obtain ⟨rfl, hrest⟩ := List.cons.inj hwhole
      exact .char hc (ih hrest)
  | @pair group rest hgroup _ ih =>
    cases text with
    | nil => exact .nil
    | cons d text =>
      obtain ⟨rfl, hparts⟩ := List.cons.inj hwhole
      -- the pair cannot be cut through: its end would stand in the tail
      rcases List.append_eq_append_iff.mp hparts with ⟨_, -, hend⟩ | ⟨within, rfl, hclose⟩
      · exact absurd rfl (htail ')' (by simp [hend])).2
      · cases within with
        | nil => exact absurd rfl (htail ')' (by rw [← List.nil_append tail, ← hclose]; simp)).2
        | cons e within =>
          obtain ⟨rfl, hrest⟩ := List.cons.inj hclose
          exact .pair hgroup (ih hrest.symm)

/-- The parentheses opened less those closed. -/
def depth (text : List Char) : Int := text.count '(' - text.count ')'

theorem depth_append (a b : List Char) : depth (a ++ b) = depth a + depth b := by
  simp only [depth, List.count_append]
  omega

theorem depth_open (text : List Char) : depth ('(' :: text) = depth text + 1 := by
  simp [depth]
  omega

theorem depth_close (text : List Char) : depth (')' :: text) = depth text - 1 := by
  simp [depth]
  omega

theorem depth_char {c : Char} (hc : c ≠ '(' ∧ c ≠ ')') (text : List Char) :
    depth (c :: text) = depth text := by
  simp only [depth, List.count_cons_of_ne hc.1, List.count_cons_of_ne hc.2]

theorem NoParens.depth_eq_zero {text : List Char} (h : NoParens text) : depth text = 0 := by
  induction text with
  | nil => rfl
  | cons c text ih =>
    obtain ⟨hc, htext⟩ := List.forall_mem_cons.mp h
    rw [depth_char hc, ih htext]

theorem Flat.depth_eq_zero {text : List Char} (h : Flat text) : depth text = 0 := by
  induction h with
  | nil => rfl
  | char hc _ ih => rw [depth_char hc, ih]
  | pair hgroup _ ih =>
    rw [depth_open, depth_append, hgroup.depth_eq_zero, depth_close, ih]
    rfl

/-- In a flat text no parenthesis is closed that was not opened in it. -/
theorem Flat.depth_nonneg {text : List Char} (h : Flat text) {front : List Char}
    (hfront : front <+: text) : 0 ≤ depth front := by
  induction h generalizing front with
  | nil =>
    rw [List.prefix_nil.mp hfront]
    exact Int.le_refl 0
  | char hc _ ih =>
    rcases List.prefix_cons_iff.mp hfront with rfl | ⟨rest, rfl, hrest⟩
    · exact Int.le_refl 0
    · rw [depth_char hc]
      exact ih hrest
  | @pair group text hgroup _ ih =>
    rcases List.prefix_cons_iff.mp hfront with rfl | ⟨rest, rfl, tail, htail⟩
    · exact Int.le_refl 0
    · rw [depth_open]
      rcases List.append_eq_append_iff.mp htail with ⟨_, hstart, -⟩ | ⟨within, rfl, hclose⟩
      · have hrest : NoParens rest := fun c hc => hgroup c (by simp [hstart, hc])
        rw [hrest.depth_eq_zero]
        omega
      · rw [depth_append, hgroup.depth_eq_zero]
        rcases List.prefix_cons_iff.mp ⟨tail, hclose.symm⟩ with rfl | ⟨within, rfl, hwithin⟩
        · exact Int.le_of_lt Int.one_pos
        · rw [depth_close]
          have := ih hwithin
          omega

/-- A parenthesis opened before a text is closed by one behind it, and not earlier. -/
structure ClosesFirst (inside : List Char) : Prop where
  still_open : ∀ front, front ≠ [] → front <+: '(' :: inside → 0 < depth front
  closed : depth ('(' :: (inside ++ [')'])) = 0

theorem Flat.closesFirst {inside : List Char} (h : Flat inside) : ClosesFirst inside where
  still_open := by
    intro front hne hfront
    rcases List.prefix_cons_iff.mp hfront with rfl | ⟨rest, rfl, hrest⟩
    · exact absurd rfl hne
    · rw [depth_open]
      have := h.depth_nonneg hrest
      omega
  closed := by
    rw [depth_open, depth_append, h.depth_eq_zero]
    rfl

/-! ## The second argument of a copy -/

mutual
theorem flat_of_balanced : ∀ {text t rest : List Char}, balanced text = some (t, rest) →
    Flat t ∧ ∃ post, rest = ')' :: post ∧ text = t ++ rest
  | [], t, rest, h => by cases h
  | c :: cs, t, rest, h => by
    rw [balanced] at h
    split at h
    · next hc =>
      cases h
      exact ⟨.nil, cs, by rw [hc], rfl⟩
    · next hclose =>
      split at h
      · next hc =>
        obtain ⟨⟨t, rest⟩, hinner, heq⟩ := Option.map_eq_some_iff.mp h
        cases heq
        obtain ⟨group, t, rfl, hgroup, ht, post, rfl, rfl⟩ := flat_of_inner hinner
        exact ⟨hc ▸ .pair hgroup ht, post, rfl, rfl⟩
      · next hopen =>
        obtain ⟨⟨t, rest⟩, hrest, heq⟩ := Option.map_eq_some_iff.mp h
        cases heq
        obtain ⟨ht, post, rfl, rfl⟩ := flat_of_balanced hrest
        exact ⟨.char ⟨hopen, hclose⟩ ht, post, rfl, rfl⟩

theorem flat_of_inner : ∀ {text t rest : List Char}, balanced.inner text = some (t, rest) →
    ∃ group t', t = group ++ ')' :: t' ∧ NoParens group ∧ Flat t' ∧
      ∃ post, rest = ')' :: post ∧ text = t ++ rest
  | [], t, rest, h => by cases h
  | c :: cs, t, rest, h => by
    rw [balanced.inner] at h
    split at h
    · cases h
    · next hopen =>
      split at h
      · next hc =>
        obtain ⟨⟨t, rest⟩, hrest, heq⟩ := Option.map_eq_some_iff.mp h
        cases heq
        obtain ⟨ht, post, rfl, rfl⟩ := flat_of_balanced hrest
        exact ⟨[], t, by rw [hc]; rfl, by simp [NoParens], ht, post, rfl, rfl⟩
      · next hclose =>
        obtain ⟨⟨t, rest⟩, hinner, heq⟩ := Option.map_eq_some_iff.mp h
        cases heq
        obtain ⟨group, t, rfl, hgroup, ht, post, rfl, rfl⟩ := flat_of_inner hinner
        have hcons : NoParens (c :: group) := List.forall_mem_cons.mpr ⟨⟨hopen, hclose⟩, hgroup⟩
        exact ⟨c :: group, t, rfl, hcons, ht, post, rfl, rfl⟩
end

theorem inner_append {group : List Char} (hgroup : NoParens group) (text : List Char) :
    balanced.inner (group ++ ')' :: text)
      = (balanced text).map fun x => (group ++ ')' :: x.1, x.2) := by
  induction group with
  | nil => simp [balanced.inner]
  | cons c group ih =>
    obtain ⟨hc, hgroup⟩ := List.forall_mem_cons.mp hgroup
    rw [List.cons_append, balanced.inner, if_neg hc.1, if_neg hc.2, ih hgroup, Option.map_map]
    rfl

theorem Flat.balanced_eq {t : List Char} (h : Flat t) (post : List Char) :
    balanced (t ++ ')' :: post) = some (t, ')' :: post) := by
  induction h with
  | nil => simp [balanced]
  | char hc _ ih =>
    rw [List.cons_append, balanced, if_neg hc.2, if_neg hc.1, ih]
    rfl
  | @pair group text hgroup _ ih =>
    have hassoc : '(' :: (group ++ ')' :: text) ++ ')' :: post
        = '(' :: (group ++ ')' :: (text ++ ')' :: post)) := by simp
    rw [hassoc, balanced, if_neg (by decide), if_pos rfl, inner_append hgroup, ih]
    rfl

/-! ## Arguments -/

/-- No blank at either end. -/
structure Trimmed (d : List Char) : Prop where
  first : ∀ c, d.head? = some c → isBlank c = false
  last : ∀ c, d.getLast? = some c → isBlank c = false

theorem not_of_head?_dropWhile {p : Char → Bool} {text : List Char} {c : Char}
    (h : (text.dropWhile p).head? = some c) : p c = false := by
  have hnot := List.head?_dropWhile_not p text
  rwa [h] at hnot

theorem not_head_of_dropWhile {p : Char → Bool} {text tail : List Char} (h : text.dropWhile p = tail)
    (c : Char) (hc : tail.head? = some c) : p c = false := by
  rw [← h] at hc
  exact not_of_head?_dropWhile hc

theorem trimRight_append_of_allBlank (d : List Char) {w : List Char} (hw : AllBlank w) :
    trimRight (d ++ w) = trimRight d := by
  rw [trimRight, List.reverse_append,
    List.dropWhile_append_of_pos fun c hc => hw c (List.mem_reverse.mp hc), trimRight]

theorem trimRight_of_allBlank {w : List Char} (hw : AllBlank w) : trimRight w = [] :=
  trimRight_append_of_allBlank [] hw

theorem trimRight_append_of_not_allBlank (d : List Char) {w : List Char} (hw : ¬ AllBlank w) :
    trimRight (d ++ w) = d ++ trimRight w := by
  have hne : (w.reverse.dropWhile isBlank).isEmpty = false := by
    rw [List.isEmpty_eq_false_iff, Ne, List.dropWhile_eq_nil_iff]
    exact fun hall => hw fun c hc => hall c (List.mem_reverse.mpr hc)
  rw [trimRight, List.reverse_append, List.dropWhile_append, hne, trimRight]
  simp

theorem Trimmed.trimRight_eq {d : List Char} (h : Trimmed d) : trimRight d = d := by
  rw [trimRight]
  cases hrev : d.reverse with
  | nil => exact (List.reverse_eq_nil_iff.mp hrev).symm
  | cons c rest =>
    have hc : isBlank c = false := h.last c (by rw [← List.head?_reverse, hrev]; rfl)
    rw [List.dropWhile_cons_of_neg (by simp [hc]), ← hrev, List.reverse_reverse]

theorem exists_trim (text : List Char) :
    ∃ w w', text = w ++ (trim text ++ w') ∧ AllBlank w ∧ AllBlank w' ∧ Trimmed (trim text) := by
  obtain ⟨w, u, htext, -, hu, hw⟩ := exists_span (p := isBlank) text
  obtain ⟨v, x, hrev, -, hx, hv⟩ := exists_span (p := isBlank) u.reverse
  have htrim : trim text = x.reverse := by rw [trim, trimLeft, hu, trimRight, hx]
  have hsplit : u = x.reverse ++ v.reverse := by
    rw [← List.reverse_append, ← hrev, List.reverse_reverse]
  have hv' : AllBlank v.reverse := fun c hc => hv c (List.mem_reverse.mp hc)
  refine ⟨w, v.reverse, by rw [htrim, ← hsplit, htext], hw, hv', ?_⟩
  rw [htrim]
  constructor
  · intro c hc
    have hhead : u.head? = some c := by rw [hsplit, List.head?_append, hc, Option.some_or]
    rw [← hu] at hhead
    exact not_of_head?_dropWhile hhead
  · intro c hc
    rw [List.getLast?_reverse, ← hx] at hc
    exact not_of_head?_dropWhile hc

theorem trim_eq {w d w' : List Char} (hw : AllBlank w) (hw' : AllBlank w') (hd : Trimmed d) :
    trim (w ++ (d ++ w')) = d := by
  rw [trim, trimLeft, List.dropWhile_append_of_pos hw]
  cases d with
  | nil =>
    rw [List.nil_append, List.dropWhile_eq_nil_iff.mpr hw']
    rfl
  | cons c d =>
    rw [List.cons_append, List.dropWhile_cons_of_neg (by simp [hd.first c rfl]), ← List.cons_append,
      trimRight_append_of_allBlank _ hw', hd.trimRight_eq]

/-- The argument that is written in a text: what is left without the blanks around it. Blanks alone
are an argument too, and the last of them stands for it. -/
inductive IsArgument : List Char → List Char → Prop
  | trimmed {w d w' : List Char} (hw : AllBlank w) (hw' : AllBlank w') (hne : d ≠ [])
      (hd : Trimmed d) : IsArgument (w ++ (d ++ w')) d
  | blank {w : List Char} {c : Char} (hw : AllBlank w) (hc : isBlank c = true) :
      IsArgument (w ++ [c]) [c]

theorem argument_eq_some_iff {text d : List Char} :
    argument text = some d ↔ IsArgument text d := by
  constructor
  · intro h
    obtain ⟨w, w', htext, hw, hw', htrimmed⟩ := exists_trim text
    unfold argument at h
    split at h
    · next hnil =>
      obtain ⟨c, hlast, rfl⟩ := Option.map_eq_some_iff.mp h
      obtain ⟨front, hfront⟩ := List.getLast?_eq_some_iff.mp hlast
      have hblank : AllBlank text := by
        rw [htext, hnil]
        intro c hc
        rcases List.mem_append.mp hc with hc | hc
        · exact hw c hc
        · exact hw' c hc
      rw [hfront] at hblank ⊢
      exact .blank (fun c hc => hblank c (by simp [hc])) (hblank c (by simp))
    · next hne =>
      cases h
      have hargument : IsArgument (w ++ (trim text ++ w')) (trim text) :=
        .trimmed hw hw' hne htrimmed
      rwa [← htext] at hargument
  · intro h
    cases h with
    | trimmed hw hw' hne hd =>
      simp only [argument, trim_eq hw hw' hd]
    | @blank w c hw hc =>
      have htrim : trim (w ++ [c]) = [] :=
        trim_eq (d := []) hw (fun e he => by rw [List.mem_singleton.mp he, hc])
          ⟨fun _ h => (by cases h), fun _ h => (by cases h)⟩
      simp [argument, htrim]

theorem argument_eq_none_iff {text : List Char} : argument text = none ↔ text = [] := by
  unfold argument
  split
  · rw [Option.map_eq_none_iff, List.getLast?_eq_none_iff]
  · next hne =>
    refine iff_of_false (by simp) ?_
    rintro rfl
    exact hne rfl

/-- A blank before an argument does not change it. -/
theorem argument_cons_of_blank {c : Char} (hc : isBlank c = true) {text d : List Char}
    (h : argument text = some d) : argument (c :: text) = some d := by
  rw [argument_eq_some_iff] at h ⊢
  have hcons : ∀ {w : List Char}, AllBlank w → AllBlank (c :: w) :=
    fun hw => List.forall_mem_cons.mpr ⟨hc, hw⟩
  cases h with
  | trimmed hw hw' hne hd => exact .trimmed (hcons hw) hw' hne hd
  | blank hw hd => exact .blank (hcons hw) hd

theorem noParens_of_allBlank {w : List Char} (h : AllBlank w) : NoParens w := by
  intro c hc
  constructor
  · rintro rfl
    exact absurd (h _ hc) (by decide)
  · rintro rfl
    exact absurd (h _ hc) (by decide)

theorem IsArgument.subset {text d : List Char} (h : IsArgument text d) : d ⊆ text := by
  cases h with
  | trimmed => simp
  | blank => simp

theorem IsArgument.flat {text d : List Char} (h : IsArgument text d) (htext : Flat text) :
    Flat d := by
  cases h with
  | trimmed hw hw' =>
    have hfront := htext.of_append_left (noParens_of_allBlank hw)
    exact hfront.of_append_right (noParens_of_allBlank hw')
  | blank hw => exact htext.of_append_left (noParens_of_allBlank hw)

/-- The arguments of a copy, without a comma in the first. -/
inductive CopyArguments : List Char → List (List Char) → Prop
  | intro {a b d source : List Char} (ha : NoParens a) (hcomma : ',' ∉ a) (hb : Flat b)
      (hd : IsArgument a d) (hsource : IsArgument b source) :
      CopyArguments (a ++ ',' :: b) [d, source]

/-- The argument of a call that reads a line. -/
inductive ReadArgument : List Char → List (List Char) → Prop
  | intro {a d : List Char} (ha : NoParens a) (hd : IsArgument a d) : ReadArgument a [d]

section
variable {inside : List Char} {arguments : List (List Char)}

theorem CopyArguments.flat (h : CopyArguments inside arguments) : Flat inside := by
  cases h with
  | intro ha _ hb => exact .append_left ha (.char (by decide) hb)

theorem ReadArgument.flat (h : ReadArgument inside arguments) : Flat inside := by
  cases h with
  | intro ha => exact ha.flat

theorem CopyArguments.eq_pair (h : CopyArguments inside arguments) :
    ∃ d source, arguments = [d, source] := by
  cases h
  exact ⟨_, _, rfl⟩

theorem ReadArgument.eq_singleton (h : ReadArgument inside arguments) : ∃ d, arguments = [d] := by
  cases h
  exact ⟨_, rfl⟩

theorem CopyArguments.simple (h : CopyArguments inside arguments) :
    (∀ d, arguments[0]? = some d → NoParens d ∧ ',' ∉ d) ∧
      ∀ source, arguments[1]? = some source → Flat source := by
  cases h with
  | intro ha hcomma hb hd hsource =>
    constructor
    · intro d hget
      cases hget
      exact ⟨fun c hc => ha c (hd.subset hc), fun hmem => hcomma (hd.subset hmem)⟩
    · intro source hget
      cases hget
      exact hsource.flat hb

theorem ReadArgument.simple (h : ReadArgument inside arguments) :
    (∀ d, arguments[0]? = some d → NoParens d) ∧
      ∀ source, arguments[1]? = some source → Flat source := by
  cases h with
  | intro ha hd =>
    constructor
    · intro d hget
      cases hget
      exact fun c hc => ha c (hd.subset hc)
    · intro source hget
      cases hget

end

end DefectScan.Proposal
