import DefectScan.Proofs.BoundedCalls
import DefectScan.Proofs.SimultaneousEdit

/-!
# Proposed fixes concern one line

A change is made of the characters of its line and of fixed texts. A line has no line feed, so the
change has only those of the fixed texts: two around the line that is guarded, else none
(`changeFor_shaped`). A proposed fix therefore applies to the text that it was proposed for, every
other line stays as it is, and the fix can be taken back:

    fixFor f text = some fix → applyFix text fix = .ok out → revert fix out = text
-/

namespace DefectScan

open Text

/-! ## What a pattern quotes -/

namespace Pattern

/-- A pattern that leaves the end of what it was given and takes note only of characters of it. -/
def Quoting (p : Pattern) : Prop :=
  ∀ text hit, p.read text = some hit → hit.rest <:+ text ∧ ∀ t ∈ hit.captured, t ⊆ text

theorem Quoting.lawful {p : Pattern} (hp : p.Quoting) : p.Lawful :=
  fun text hit h => (hp text hit h).1

theorem someWord_subset {text w rest : List Char} (h : someWord text = some (w, rest)) :
    w ⊆ text := by
  unfold someWord at h
  split at h
  · cases h
  · cases h
    exact (List.takeWhile_sublist _).subset

theorem Quoting.of_mem_occurrences {p : Pattern} (hp : p.Quoting) {text : List Char}
    {o : Occurrence} (h : o ∈ p.occurrences text) :
    o.behind ⊆ text ∧ o.after ⊆ text ∧ ∀ t ∈ o.captured, t ⊆ text := by
  obtain ⟨hparts, -⟩ := occurrencesFrom_parts hp.lawful h
  have hread := read_of_readAt (readAt_of_mem_occurrencesFrom hp.lawful h)
  rw [List.reverse_nil, List.nil_append] at hparts
  refine ⟨?_, ?_, ?_⟩
  · intro c hc
    rw [← hparts]
    simp [hc]
  · intro c hc
    rw [← hparts]
    simp [hc]
  · intro t ht c hc
    rw [← hparts]
    exact List.mem_append_right _ ((hp _ _ hread).2 t ht hc)

theorem not_mem_replaceAll_go {new : Occurrence → List Char} {text : List Char} {c : Char}
    (htext : c ∉ text) (os : List Occurrence) (hnew : ∀ o ∈ os, c ∉ new o) (done : Nat) :
    c ∉ replaceAll.go new text os done := by
  induction os generalizing done with
  | nil => exact fun h => htext (List.mem_of_mem_drop h)
  | cons o os ih =>
    obtain ⟨ho, hos⟩ := List.forall_mem_cons.mp hnew
    rw [replaceAll.go]
    simp only [List.mem_append, not_or]
    exact ⟨⟨fun h => htext (List.mem_of_mem_drop (List.mem_of_mem_take h)), ho⟩, ih hos _⟩

/-- A character that neither the text nor any of the new texts has does not come in. -/
theorem not_mem_replaceAll {p : Pattern} {new : Occurrence → List Char} {text : List Char}
    {c : Char} (htext : c ∉ text) (hnew : ∀ o ∈ p.occurrences text, c ∉ new o) :
    c ∉ p.replaceAll new text :=
  not_mem_replaceAll_go htext _ hnew 0

end Pattern

namespace Proposal

open Pattern

theorem assignedAllocation_quoting : assignedAllocation.Quoting := by
  intro text hit h
  simp only [assignedAllocation, Option.bind_eq_bind, Option.bind_eq_some_iff] at h
  obtain ⟨⟨name, afterName⟩, hname, value, hvalue, rest, hrest, h⟩ := h
  cases h
  refine ⟨(word_suffix hrest).trans ?_, by simpa using someWord_subset hname⟩
  have hafter : blanks value <:+ text :=
    (blanks_suffix value).trans ((mark_suffix hvalue).trans (someWord_suffix hname))
  split
  · next r hcast =>
    simp only [Option.bind_eq_some_iff] at hcast
    obtain ⟨inside, hopen, hclose⟩ := hcast
    have hcasted : r <:+ blanks value :=
      (word_suffix hclose).trans ((List.dropWhile_suffix _).trans (word_suffix hopen))
    exact (blanks_suffix r).trans (hcasted.trans hafter)
  · exact hafter

theorem dereference_quoting : dereference.Quoting := by
  intro text hit h
  simp only [dereference, Option.bind_eq_bind, Option.bind_eq_some_iff] at h
  obtain ⟨⟨name, afterName⟩, hname, rest, hrest, h⟩ := h
  cases h
  exact ⟨(mark_suffix hrest).trans (someWord_suffix hname), by simpa using someWord_subset hname⟩

theorem bareDeclaration_quoting : Lexical.bareDeclaration.Quoting := by
  intro text hit h
  refine ⟨Lexical.bareDeclaration_lawful text hit h, ?_⟩
  simp only [Lexical.bareDeclaration, Option.bind_eq_bind, Option.bind_eq_some_iff] at h
  obtain ⟨afterType, htype, afterBlanks, hblanks, ⟨name, afterName⟩, hname, rest, -, h⟩ := h
  cases h
  have hsuffix : afterBlanks <:+ text := (someBlanks_suffix hblanks).trans (word_suffix htype)
  simpa using List.Subset.trans (someWord_subset hname) hsuffix.subset

theorem endlessWhile_quoting : Lexical.endlessWhile.Quoting := by
  intro text hit h
  refine ⟨Lexical.endlessWhile_lawful text hit h, ?_⟩
  simp only [Lexical.endlessWhile, Option.bind_eq_bind, Option.bind_eq_some_iff] at h
  obtain ⟨_, _, _, _, _, _, _, _, h⟩ := h
  cases h
  simp

theorem ReadsCalls.quoting {p : Pattern} {f : String}
    {Arguments : List Char → List (List Char) → Prop} (h : ReadsCalls p f Arguments)
    (hsubset : ∀ inside arguments, Arguments inside arguments → ∀ d ∈ arguments, d ⊆ inside) :
    p.Quoting := by
  intro text hit hread
  refine ⟨h.lawful text hit hread, ?_⟩
  obtain ⟨w, inside, -, rfl, harguments⟩ := (h.read_iff text hit).mp hread
  intro t ht c hc
  have hinside : c ∈ inside := hsubset inside hit.captured harguments t ht hc
  simp [hinside]

theorem copyCall_quoting (f : String) : (copyCall f).Quoting := by
  apply (copyCall_readsCalls f).quoting
  intro inside arguments h t ht c hc
  cases h with
  | intro _ _ _ hd hsource =>
    simp only [List.mem_cons, List.not_mem_nil, or_false] at ht
    rcases ht with rfl | rfl
    · simp [hd.subset hc]
    · simp [hsource.subset hc]

theorem lineRead_quoting : lineRead.Quoting := by
  apply lineRead_readsCalls.quoting
  intro inside arguments h t ht
  cases h with
  | intro _ hd =>
    rw [List.mem_singleton.mp ht]
    exact hd.subset

/-! ## Changes of a line -/

section
variable {line : List Char} {o : Occurrence} {p : Pattern}

theorem newline_not_mem_captured (hp : p.Quoting) (hline : '\n' ∉ line)
    (h : o ∈ p.occurrences line) (i : Nat) : '\n' ∉ captured o i := by
  intro hmem
  unfold captured at hmem
  cases hget : o.captured[i]? with
  | none => simp [List.getD, hget] at hmem
  | some t =>
    have ht : t ⊆ line := (hp.of_mem_occurrences h).2.2 t (List.mem_of_getElem? hget)
    simp only [List.getD, hget, Option.getD_some] at hmem
    exact hline (ht hmem)

theorem newline_not_mem_replace (hp : p.Quoting) (hline : '\n' ∉ line)
    (h : o ∈ p.occurrences line) {new : List Char} (hnew : '\n' ∉ new) :
    '\n' ∉ o.replace new := by
  obtain ⟨hbehind, hafter, -⟩ := hp.of_mem_occurrences h
  simp only [Occurrence.replace, List.mem_append, List.mem_reverse, not_or]
  exact ⟨⟨fun hmem => hline (hbehind hmem), hnew⟩, fun hmem => hline (hafter hmem)⟩

end

/-- All the spaces and tabs that a line begins with. -/
def IsIndent (line indent : List Char) : Prop :=
  ∃ rest, line = indent ++ rest ∧ (∀ c ∈ indent, c = ' ' ∨ c = '\t') ∧
    ∀ c, rest.head? = some c → c ≠ ' ' ∧ c ≠ '\t'

theorem indentation_isIndent (line : List Char) : IsIndent line (indentation line) := by
  obtain ⟨indent, rest, hline, htake, hdrop, hindent⟩ :=
    exists_span (p := fun c => c = ' ' || c = '\t') line
  rw [indentation, htake]
  refine ⟨rest, hline, fun c hc => by simpa using hindent c hc, ?_⟩
  intro c hc
  rw [← hdrop] at hc
  simpa using not_of_head?_dropWhile hc

theorem not_mem_indentation {c : Char} (hspace : c ≠ ' ') (htab : c ≠ '\t') (line : List Char) :
    c ∉ indentation line := by
  obtain ⟨-, -, hindent, -⟩ := indentation_isIndent line
  intro hmem
  rcases hindent _ hmem with h | h
  · exact hspace h
  · exact htab h

theorem newline_not_mem_indentation (line : List Char) : '\n' ∉ indentation line :=
  not_mem_indentation (by decide) (by decide) line

theorem newline_not_mem_trim {line : List Char} (hline : '\n' ∉ line) : '\n' ∉ trim line := by
  obtain ⟨w, w', hparts, -⟩ := exists_trim line
  rw [hparts] at hline
  simp only [List.mem_append, not_or] at hline
  exact hline.2.1

/-- What the change of a line for a category looks like. -/
structure Change.Shaped (category : Category) (line : List Char) (c : Change) : Prop where
  inserts_iff : c.edit = .insertAfter ↔ category = .memoryLeak
  count_text : Lines.count c.text = if category = .nullPointer then 3 else 1
  indented : category = .memoryLeak ∨ category = .nullPointer →
    ∃ indent, IsIndent line indent ∧ indent <+: c.text

theorem count_of_newline_not_mem {text : List Char} (h : '\n' ∉ text) : Lines.count text = 1 := by
  rw [Lines.count_eq, List.count_eq_zero.mpr h]

section
variable {line : List Char} {c : Change}

theorem release_shaped (hline : '\n' ∉ line) (h : release line = some c) :
    c.Shaped .memoryLeak line := by
  obtain ⟨o, ho, rfl⟩ := Option.map_eq_some_iff.mp h
  have hcaptured := newline_not_mem_captured assignedAllocation_quoting hline (List.mem_of_head? ho)
  refine ⟨iff_of_true rfl rfl, count_of_newline_not_mem ?_, fun _ => ?_⟩
  · simp [newline_not_mem_indentation line, hcaptured 0]
  · refine ⟨_, indentation_isIndent line, ?_⟩
    simp only [List.append_assoc]
    exact List.prefix_append _ _

/-- A change that replaces the line by another. -/
theorem Change.Shaped.of_replaceLine {category : Category} (hcategory : category ≠ .memoryLeak)
    (hguard : category ≠ .nullPointer) (hedit : c.edit = .replaceLine) (htext : '\n' ∉ c.text) :
    c.Shaped category line where
  inserts_iff := by simp [hedit, hcategory]
  count_text := by rw [if_neg hguard, count_of_newline_not_mem htext]
  indented := by
    rintro (h | h)
    · exact absurd h hcategory
    · exact absurd h hguard

theorem newline_not_mem_sizeOf {d : List Char} (hd : '\n' ∉ d) : '\n' ∉ sizeOf d := by
  simp [sizeOf_eq, hd]

theorem newline_not_mem_spaceLeft {d : List Char} (hd : '\n' ∉ d) : '\n' ∉ spaceLeft d := by
  simp [spaceLeft_eq, newline_not_mem_sizeOf hd, hd]

theorem boundedCopy_shaped {f g ending note : String} {size : List Char → List Char}
    (hg : '\n' ∉ g.toList) (hending : '\n' ∉ ending.toList)
    (hsize : ∀ d, '\n' ∉ d → '\n' ∉ size d) (hline : '\n' ∉ line)
    (h : boundedCopy f g ending note size line = some c) : c.Shaped .bufferOverflow line := by
  obtain ⟨o, ho, rfl⟩ := Option.map_eq_some_iff.mp h
  have hcaptured := newline_not_mem_captured (copyCall_quoting f) hline (List.mem_of_head? ho)
  refine .of_replaceLine (by decide) (by decide) rfl ?_
  apply newline_not_mem_replace (copyCall_quoting f) hline (List.mem_of_head? ho)
  simp [hg, hending, hcaptured 0, hcaptured 1, hsize _ (hcaptured 0)]

theorem bound_shaped (hline : '\n' ∉ line) (h : bound line = some c) :
    c.Shaped .bufferOverflow line := by
  simp only [bound, Option.orElse_eq_or, Option.or_eq_some_iff] at h
  rcases h with h | ⟨-, h | ⟨-, h⟩⟩
  · exact boundedCopy_shaped (by decide) (by decide) (fun _ => newline_not_mem_sizeOf) hline h
  · exact boundedCopy_shaped (by decide) (by decide) (fun _ => newline_not_mem_spaceLeft) hline h
  · obtain ⟨o, ho, rfl⟩ := Option.map_eq_some_iff.mp h
    have hbuffer := newline_not_mem_captured lineRead_quoting hline (List.mem_of_head? ho) 0
    refine .of_replaceLine (by decide) (by decide) rfl ?_
    apply newline_not_mem_replace lineRead_quoting hline (List.mem_of_head? ho)
    simp [hbuffer, newline_not_mem_sizeOf hbuffer]

theorem guard_shaped (hline : '\n' ∉ line) (h : guard line = some c) :
    c.Shaped .nullPointer line := by
  obtain ⟨o, ho, rfl⟩ := Option.map_eq_some_iff.mp h
  have hpointer := newline_not_mem_captured dereference_quoting hline (List.mem_of_head? ho) 0
  refine ⟨by simp, ?_, fun _ => ?_⟩
  · have hindent := List.count_eq_zero.mpr (newline_not_mem_indentation line)
    have htrim := List.count_eq_zero.mpr (newline_not_mem_trim hline)
    simp [Lines.count_eq, hindent, htrim, List.count_eq_zero.mpr hpointer]
  · refine ⟨_, indentation_isIndent line, ?_⟩
    simp only [List.append_assoc]
    exact List.prefix_append _ _

theorem initialise_shaped (hline : '\n' ∉ line) (h : initialise line = some c) :
    c.Shaped .uninitializedVar line := by
  obtain ⟨-, -, rfl⟩ := Option.map_eq_some_iff.mp h
  refine .of_replaceLine (by decide) (by decide) rfl ?_
  apply not_mem_replaceAll hline
  intro o ho
  simp [newline_not_mem_captured bareDeclaration_quoting hline ho 0]

theorem conditional_shaped (hline : '\n' ∉ line) (h : conditional line = some c) :
    c.Shaped .infiniteLoop line := by
  obtain ⟨o, ho, rfl⟩ := Option.map_eq_some_iff.mp h
  refine .of_replaceLine (by decide) (by decide) rfl ?_
  have hreplace : '\n' ∉ o.replace "while (condition)".toList :=
    newline_not_mem_replace endlessWhile_quoting hline (List.mem_of_head? ho) (by decide)
  have htrimmed : '\n' ∉ trimRight (o.replace "while (condition)".toList) := by
    intro hmem
    apply hreplace
    exact List.mem_reverse.mp ((List.dropWhile_sublist _).subset (List.mem_reverse.mp hmem))
  simp only [List.mem_append, not_or]
  exact ⟨htrimmed, by decide⟩

/-- One lemma for all categories: the two without a rule have no change. -/
theorem changeFor_shaped {category : Category} (hline : '\n' ∉ line)
    (h : changeFor category line = some c) :
    category ≠ .missingReturn ∧ category ≠ .syntaxError ∧ c.Shaped category line := by
  cases category with
  | memoryLeak => exact ⟨by decide, by decide, release_shaped hline h⟩
  | bufferOverflow => exact ⟨by decide, by decide, bound_shaped hline h⟩
  | nullPointer => exact ⟨by decide, by decide, guard_shaped hline h⟩
  | uninitializedVar => exact ⟨by decide, by decide, initialise_shaped hline h⟩
  | infiniteLoop => exact ⟨by decide, by decide, conditional_shaped hline h⟩
  | missingReturn => cases h
  | syntaxError => cases h

end

end Proposal

/-! ## Taking a fix back -/

theorem Text.Lines.exists_of_numbered? {text line : List Char} {n : Nat}
    (h : Lines.numbered? text n = some line) :
    ∃ above below, Lines.split text = above ++ line :: below ∧ n = above.length + 1 := by
  unfold Lines.numbered? at h
  split at h
  · cases h
  · next hn =>
    obtain ⟨hlt, rfl⟩ := List.getElem?_eq_some_iff.mp h
    refine ⟨(Lines.split text).take (n - 1), (Lines.split text).drop (n - 1 + 1), ?_, ?_⟩
    · rw [← List.drop_eq_getElem_cons hlt, List.take_append_drop]
    · rw [List.length_take]
      omega

namespace Patch

/-- A text that a fix was applied to, with the lines of its replacement taken out again and the line
that they stand for put back. -/
def revert (fix : Fix) (text : List Char) : List Char :=
  let lines := Lines.split text
  let added := Lines.count fix.replacementText.toList
  match fix.edit with
  | .replaceLine =>
    Lines.join (lines.take (fix.line - 1) ++
      fix.currentText.toList :: lines.drop (fix.line - 1 + added))
  | .insertAfter => Lines.join (lines.take fix.line ++ lines.drop (fix.line + added))

section
variable {text line : List Char} {above below : List (List Char)} {fix : Fix}

theorem flatMap_split_editLine (hline : '\n' ∉ line) : (editLine fix line).flatMap Lines.split
    = (if fix.edit = .insertAfter then [line] else []) ++
      Lines.split fix.replacementText.toList := by
  unfold editLine
  cases fix.edit with
  | replaceLine => simp
  | insertAfter => simp [Lines.split_of_not_mem line hline]

/-- The lines above and below stay, and a line behind which another is inserted stays too. -/
theorem split_applyFix (hsplit : Lines.split text = above ++ line :: below)
    (hfix : fix.line = above.length + 1) :
    ∃ out, applyFix text fix = .ok out ∧ Lines.split out
      = above ++ ((if fix.edit = .insertAfter then [line] else []) ++
        Lines.split fix.replacementText.toList ++ below) := by
  have hlines : ∀ l ∈ above ++ line :: below, '\n' ∉ l := by
    rw [← hsplit]
    exact fun l => Lines.not_mem_of_mem_split
  simp only [List.forall_mem_append, List.forall_mem_cons] at hlines
  obtain ⟨habove, hline, hbelow⟩ := hlines
  have happly := applyFix_join below habove hline hfix
  rw [← hsplit, Lines.join_split] at happly
  refine ⟨_, happly, ?_⟩
  have hne : above ++ (editLine fix line ++ below) ≠ [] := by
    unfold editLine
    cases fix.edit <;> simp
  rw [Lines.split_join_append above _ habove hne, List.flatMap_append,
    flatMap_split_editLine hline, Lines.flatMap_split_of_not_mem hbelow]

/-- Lines between others can be cut out. -/
theorem take_and_drop_around (front added back : List (List Char)) :
    (front ++ (added ++ back)).take front.length = front ∧
      (front ++ (added ++ back)).drop (front.length + added.length) = back := by
  constructor
  · exact List.take_left
  · rw [← List.append_assoc, ← List.length_append]
    exact List.drop_left

theorem revert_eq {out : List Char} (hsplit : Lines.split text = above ++ line :: below)
    (hfix : fix.line = above.length + 1) (hcurrent : fix.currentText.toList = line)
    (hout : Lines.split out = above ++ ((if fix.edit = .insertAfter then [line] else []) ++
      Lines.split fix.replacementText.toList ++ below)) :
    revert fix out = text := by
  have htext : Lines.join (above ++ line :: below) = text := by rw [← hsplit, Lines.join_split]
  unfold revert Lines.count
  cases hedit : fix.edit with
  | replaceLine =>
    simp only [hedit, reduceCtorEq, if_false, List.nil_append] at hout
    obtain ⟨htake, hdrop⟩ := take_and_drop_around above (Lines.split fix.replacementText.toList) below
    simp only [hout, hfix, Nat.add_sub_cancel, htake, hdrop, hcurrent, htext]
  | insertAfter =>
    -- the line itself belongs to what stays in front
    have hlines : Lines.split out
        = (above ++ [line]) ++ (Lines.split fix.replacementText.toList ++ below) := by
      simp [hout, hedit]
    have hfront : fix.line = (above ++ [line]).length := by simp [hfix]
    obtain ⟨htake, hdrop⟩ :=
      take_and_drop_around (above ++ [line]) (Lines.split fix.replacementText.toList) below
    simp only [hlines, hfront, htake, hdrop]
    rw [List.append_assoc]
    exact htext

end

end Patch

/-! ## Main result -/

namespace Proposal

open Patch

/-- A fix as it is proposed for a finding on a line. -/
structure ProposedFor (f : Finding) (line : List Char) (fix : Fix) : Prop where
  has_rule : f.category ≠ .missingReturn ∧ f.category ≠ .syntaxError
  category : fix.category = f.category
  number : fix.line = f.line
  current : fix.currentText.toList = line
  inserts_iff : fix.edit = .insertAfter ↔ f.category = .memoryLeak
  count_replacement :
    Lines.count fix.replacementText.toList = if f.category = .nullPointer then 3 else 1
  indented : f.category = .memoryLeak ∨ f.category = .nullPointer →
    ∃ indent, IsIndent line indent ∧ indent <+: fix.replacementText.toList

theorem proposedFor_of_fixFor {f : Finding} {text : String} {fix : Fix}
    (h : fixFor f text = some fix) :
    ∃ line, Lines.numbered? text.toList f.line = some line ∧ ProposedFor f line fix := by
  obtain ⟨line, c, hnumbered, hchange, rfl⟩ := fixAt_eq_some_iff.mp h
  obtain ⟨above, below, hsplit, -⟩ := Lines.exists_of_numbered? hnumbered
  have hline : '\n' ∉ line := Lines.not_mem_of_mem_split (by rw [hsplit]; simp)
  obtain ⟨hreturn, hsyntax, hshaped⟩ := changeFor_shaped hline hchange
  refine ⟨line, hnumbered, ⟨hreturn, hsyntax⟩, rfl, rfl, String.toList_ofList,
    hshaped.inserts_iff, ?_, ?_⟩
  · rw [String.toList_ofList, hshaped.count_text]
  · rw [String.toList_ofList]
    exact hshaped.indented

/-- A fix is proposed only for a line of the text. It always applies to the text, the lines above and
below stay as they are, and the text comes back when the fix is taken back. -/
theorem applyFix_fixFor {f : Finding} {text : String} {fix : Fix}
    (h : fixFor f text = some fix) :
    ∃ above line below, Lines.split text.toList = above ++ line :: below ∧
      f.line = above.length + 1 ∧ ProposedFor f line fix ∧
      ∃ out, applyFix text.toList fix = .ok out ∧
        Lines.split out = above ++ ((if fix.edit = .insertAfter then [line] else []) ++
          Lines.split fix.replacementText.toList ++ below) ∧
        revert fix out = text.toList := by
  obtain ⟨line, hnumbered, hproposed⟩ := proposedFor_of_fixFor h
  obtain ⟨above, below, hsplit, hnumber⟩ := Lines.exists_of_numbered? hnumbered
  have hfix : fix.line = above.length + 1 := hproposed.number.trans hnumber
  obtain ⟨out, happly, hout⟩ := split_applyFix hsplit hfix
  exact ⟨above, line, below, hsplit, hnumber, hproposed, out, happly, hout,
    revert_eq hsplit hfix hproposed.current hout⟩

def unguardedText : String := "a();\r\n \t q = p->n + $1;\u2003\r\n\r"

def guardedText : String :=
  "a();\r\n \t if (p != NULL) \x7b\n \t     q = p->n + $1;\n \t \x7d\n\r"

/-- Three lines for one that ends with a carriage return, between others that do. -/
theorem applyFix_fixFor_guarded :
    ∃ line fix, fixFor (.atLine .nullPointer 2 "" .lexical) unguardedText = some fix ∧
      ProposedFor (.atLine .nullPointer 2 "" .lexical) line fix ∧
      applyFix unguardedText.toList fix = .ok guardedText.toList ∧
      revert fix guardedText.toList = unguardedText.toList := by
  have hguarded : ((fixFor (.atLine .nullPointer 2 "" .lexical) unguardedText).bind fun fix =>
      (applyFix unguardedText.toList fix).toOption) = some guardedText.toList := by
    decide +kernel
  obtain ⟨fix, hfix, hout⟩ := Option.bind_eq_some_iff.mp hguarded
  obtain ⟨above, line, below, -, -, hproposed, out, happly, -, hrevert⟩ := applyFix_fixFor hfix
  rw [happly] at hout
  obtain rfl := Option.some.inj hout
  exact ⟨line, fix, hfix, hproposed, happly, hrevert⟩

end Proposal

end DefectScan
