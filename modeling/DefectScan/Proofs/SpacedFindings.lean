import DefectScan.Proofs.Respacing
import DefectScan.Proofs.TestedNames

/-!
# Line ends and outer blanks

The findings of the lexical rules do not depend on how the blanks of a text are written, as long as
there are as many line feeds. The patterns do not see it (`ignored_of_mem_rules`), and what the rules
look at around an occurrence is the same: the text up to the end of the block or of the next
statement, and the text before it on the line.

    scan (front ++ e.written text) = (scan text).map (·.movedDown (front.count '\n'))

So carriage returns before the line feeds make no difference, and outer blanks only move the findings
down by the line feeds before the text.
-/

namespace DefectScan

open Text Pattern

namespace Respacing

open Lexical

variable (e : Respacing)

/-! ## The patterns of the rules -/

/-- The end of a statement that has a closing parenthesis. -/
def statementEnd (inside : List Char) : Option Hit :=
  match inside.dropWhile (· ≠ ';') with
  | [] => none
  | _ :: rest => if (inside.takeWhile (· ≠ ';')).contains ')' then some ⟨[], rest⟩ else none

theorem allocation_read (text : List Char) : allocation.read text
    = (word "malloc" text).bind fun rest => (mark "(" rest).bind statementEnd := rfl

theorem statementEnd_written (text : List Char) :
    statementEnd (e.written text) = (statementEnd text).map e.hit := by
  have hsemicolon : isBlank ';' = false := by decide
  have hclose : isBlank ')' = false := by decide
  by_cases hmem : ';' ∈ text
  · obtain ⟨a, b, rfl, ha⟩ := List.eq_append_cons_of_mem hmem
    have hspan := span_cons ha b
    have hspan' := span_cons (e.not_mem_spelt hsemicolon ha) (e.written b)
    have hcontains : (e.spelt a).contains ')' = a.contains ')' := by
      rw [Bool.eq_iff_iff, List.contains_iff_mem, List.contains_iff_mem, e.mem_spelt_iff hclose]
    rw [written_append, e.written_cons_solid hsemicolon, statementEnd, statementEnd, hspan.1, hspan.2,
      hspan'.1, hspan'.2, hcontains]
    cases a.contains ')' <;> rfl
  · rw [statementEnd, statementEnd, (span_of_not_mem hmem).2,
      (span_of_not_mem (e.not_mem_written hsemicolon hmem)).2]
    rfl

theorem afterLastClose_of_not_mem {text : List Char} (h : ')' ∉ text.takeWhile (· ≠ ';')) :
    afterLastClose text = none := by
  have hnot : ')' ∉ (text.takeWhile (· ≠ ';')).reverse := fun hmem => h (List.mem_reverse.mp hmem)
  rw [afterLastClose, (span_of_not_mem hnot).1, List.length_reverse]
  exact if_neg (Nat.lt_irrefl _)

theorem afterLastClose_append {a rest : List Char} (ha : ';' ∉ a)
    (hrest : ')' ∉ rest.takeWhile (· ≠ ';')) : afterLastClose (a ++ ')' :: rest) = some rest := by
  have hinside : (a ++ ')' :: rest).takeWhile (· ≠ ';') = a ++ ')' :: rest.takeWhile (· ≠ ';') := by
    rw [List.takeWhile_append_of_pos (run_of_not_mem ha), List.takeWhile_cons_of_pos (by decide)]
  have htail : (a ++ ')' :: rest.takeWhile (· ≠ ';')).reverse.takeWhile (· ≠ ')')
      = (rest.takeWhile (· ≠ ';')).reverse := by
    rw [List.reverse_append, List.reverse_cons, List.append_assoc]
    exact (span_cons (fun hmem => hrest (List.mem_reverse.mp hmem)) a.reverse).1
  rw [afterLastClose, hinside, htail]
  simp only [List.length_reverse, List.length_append, List.length_cons]
  have hdrop : a.length + ((rest.takeWhile (· ≠ ';')).length + 1) - (rest.takeWhile (· ≠ ';')).length
      = a.length + 1 := by omega
  rw [if_pos (by omega), hdrop, ← List.drop_drop, List.drop_left]
  rfl

/-- The last of several. -/
theorem exists_last {x : Char} {text : List Char} (h : x ∈ text) :
    ∃ a b, text = a ++ x :: b ∧ x ∉ b := by
  obtain ⟨b, a, hreverse, hb⟩ := List.eq_append_cons_of_mem (List.mem_reverse.mpr h)
  refine ⟨a.reverse, b.reverse, ?_, fun hmem => hb (List.mem_reverse.mp hmem)⟩
  rw [← List.reverse_reverse text, hreverse]
  simp

theorem afterLastClose_written (text : List Char) :
    afterLastClose (e.written text) = (afterLastClose text).map e.written := by
  have hsemicolon : isBlank ';' = false := by decide
  have hclose : isBlank ')' = false := by decide
  have hinside : ∀ t : List Char,
      ')' ∈ (e.written t).takeWhile (· ≠ ';') ↔ ')' ∈ t.takeWhile (· ≠ ';') := by
    intro t
    obtain ⟨e', htake⟩ := e.exists_takeWhile_written hsemicolon t
    rw [htake, e'.mem_written_iff hclose]
  by_cases hmem : ')' ∈ text.takeWhile (· ≠ ';')
  · -- cut at the last parenthesis: none follows before the semicolon, and none is written there
    obtain ⟨a, b, hab, hb⟩ := exists_last hmem
    obtain ⟨htext, hrun, hhead⟩ := span_eq_iff.mp ⟨hab, rfl⟩
    have hnot : ';' ∉ a ++ ')' :: b := fun hc => by simpa using hrun _ hc
    have ha : ';' ∉ a := fun hc => hnot (List.mem_append_left _ hc)
    have hrest : ')' ∉ (b ++ text.dropWhile (· ≠ ';')).takeWhile (· ≠ ';') := by
      have hb' : ';' ∉ b := fun hc => hnot (List.mem_append_right _ (List.mem_cons_of_mem _ hc))
      rw [(span_eq_iff.mpr ⟨rfl, run_of_not_mem hb', hhead⟩).1]
      exact hb
    rw [List.append_assoc, List.cons_append] at htext
    rw [htext, written_append, e.written_cons_solid hclose, afterLastClose_append ha hrest,
      afterLastClose_append (e.not_mem_spelt hsemicolon ha)
        ((not_congr (hinside _)).mpr hrest)]
    rfl
  · rw [afterLastClose_of_not_mem hmem,
      afterLastClose_of_not_mem ((not_congr (hinside text)).mpr hmem)]
    rfl

theorem word_blank {w : String} (hw : isSolid w = true) {c : Char} (hc : isBlank c = true)
    (text : List Char) : word w (c :: text) = none := by
  obtain ⟨hne, hsolid⟩ := isSolid_iff.mp hw
  obtain ⟨d, ds, hd⟩ := List.exists_cons_of_ne_nil hne
  rw [word, hd]
  exact (BlankStart.cons hc text).literal (hsolid d (hd ▸ List.mem_cons_self)) ds

theorem allocation_ignored : e.Ignored allocation where
  read_written text := by
    simp only [allocation_read, e.word_written (w := "malloc") (by decide),
      e.mark_written (m := "(") (by decide), statementEnd_written, Option.bind_map, Option.map_bind,
      Function.comp_def]
  read_blank hc text := by rw [allocation_read, word_blank (by decide) hc]; rfl

/-- A call of one of the functions that write without a bound. -/
def unboundedCall (f : String) (text : List Char) : Option Hit :=
  (word f text).bind fun rest => (mark "(" rest).bind fun inside =>
    (afterLastClose inside).bind fun rest => some ⟨[], rest⟩

theorem unboundedWrite_read (text : List Char) :
    unboundedWrite.read text = unboundedWriters.findSome? (unboundedCall · text) := rfl

theorem solid_of_mem_unboundedWriters : ∀ f ∈ unboundedWriters, isSolid f = true :=
  List.all_eq_true.mp (by decide)

theorem unboundedCall_written {f : String} (hf : isSolid f = true) (text : List Char) :
    unboundedCall f (e.written text) = (unboundedCall f text).map e.hit := by
  simp only [unboundedCall, e.word_written hf, e.mark_written (m := "(") (by decide),
    afterLastClose_written, Option.bind_map, Option.map_bind, Option.map_some, Function.comp_def, hit]

theorem unboundedWrite_ignored : e.Ignored unboundedWrite where
  read_written text := by
    rw [unboundedWrite_read, unboundedWrite_read, List.map_findSome?]
    have hcalls : ∀ fs : List String, (∀ f ∈ fs, isSolid f = true) →
        fs.findSome? (unboundedCall · (e.written text))
          = fs.findSome? (Option.map e.hit ∘ (unboundedCall · text)) := by
      intro fs hfs
      induction fs with
      | nil => rfl
      | cons f fs ih =>
        obtain ⟨hf, hfs⟩ := List.forall_mem_cons.mp hfs
        rw [List.findSome?_cons, List.findSome?_cons, e.unboundedCall_written hf, ih hfs]
        rfl
    exact hcalls unboundedWriters solid_of_mem_unboundedWriters
  read_blank hc text := by
    rw [unboundedWrite_read, List.findSome?_eq_none_iff]
    intro f hf
    rw [unboundedCall, word_blank (solid_of_mem_unboundedWriters f hf) hc]
    rfl

theorem unboundedWrite_consuming : unboundedWrite.Consuming := by
  intro text hit hread
  rw [unboundedWrite_read] at hread
  obtain ⟨f, hf, hread⟩ := List.exists_of_findSome?_eq_some hread
  simp only [unboundedCall, Option.bind_eq_some_iff, Option.some.injEq] at hread
  obtain ⟨rest, hword, inside, hmark, after, hafter, rfl⟩ := hread
  have hle := ((afterLastClose_suffix hafter).trans (mark_suffix hmark)).length_le
  have hpos := List.length_pos_iff.mpr (isSolid_iff.mp (solid_of_mem_unboundedWriters f hf)).1
  rw [word_eq_some_iff.mp hword, List.length_append]
  exact Nat.lt_of_le_of_lt hle (by omega)

theorem memberAccess_ignored : e.Ignored memberAccess where
  read_written text := by
    simp only [memberAccess, Option.bind_eq_bind, e.someWord_written,
      e.mark_written (m := "->") (by decide), e.read_blanks_written rfl e.someWord_written,
      Option.bind_map, Option.map_bind, Function.comp_def, afterWord]
    rfl
  read_blank hc text := by
    simp only [memberAccess, (BlankStart.cons hc text).someWord]
    rfl

theorem bareDeclaration_read (text : List Char) : bareDeclaration.read text
    = (word "int" text).bind fun rest => (spacedWord rest).bind fun found =>
      (mark ";" found.2).bind fun rest => some ⟨[found.1], rest⟩ := by
  simp only [bareDeclaration, spacedWord, Option.bind_eq_bind, Option.bind_assoc]
  rfl

theorem bareDeclaration_ignored : e.Ignored bareDeclaration where
  read_written text := by
    simp only [bareDeclaration_read, e.word_written (w := "int") (by decide), e.spacedWord_written,
      e.mark_written (m := ";") (by decide), Option.bind_map, Option.map_bind, Option.map_some,
      Function.comp_def, afterWord, hit]
  read_blank hc text := by
    simp only [bareDeclaration, word_blank (w := "int") (by decide) hc]
    rfl

theorem endlessLoop_ignored : e.Ignored endlessLoop where
  read_written text := by
    have hwhile : endlessWhile.read (e.written text) = (endlessWhile.read text).map e.hit := by
      simp only [endlessWhile, Option.bind_eq_bind, Option.orElse_eq_or,
        e.word_written (w := "while") (by decide), e.mark_written (m := "(") (by decide),
        e.mark_written (m := "1") (by decide), e.mark_written (m := "true") (by decide),
        e.mark_written (m := ")") (by decide), ← Option.map_or, Option.bind_map, Option.map_bind,
        Function.comp_def]
      rfl
    have hfor : endlessFor.read (e.written text) = (endlessFor.read text).map e.hit := by
      simp only [endlessFor, Option.bind_eq_bind, e.word_written (w := "for") (by decide),
        e.mark_written (m := "(") (by decide), e.mark_written (m := ";") (by decide),
        e.mark_written (m := ")") (by decide), Option.bind_map, Option.map_bind, Function.comp_def]
      rfl
    simp only [endlessLoop, Option.orElse_eq_or, hwhile, hfor, Option.map_or]
  read_blank hc text := by
    simp only [endlessLoop, endlessWhile, endlessFor, word_blank (w := "while") (by decide) hc,
      word_blank (w := "for") (by decide) hc]
    rfl

theorem ignored_of_mem_rules {r : Rule} (h : r ∈ rules) :
    e.Ignored r.pattern ∧ r.pattern.Consuming := by
  simp only [rules, List.mem_cons, List.not_mem_nil, or_false] at h
  rcases h with rfl | rfl | rfl | rfl | rfl
  · exact ⟨e.allocation_ignored, allocation_spells.consuming⟩
  · exact ⟨e.unboundedWrite_ignored, unboundedWrite_consuming⟩
  · exact ⟨e.memberAccess_ignored, memberAccess_consuming⟩
  · exact ⟨e.bareDeclaration_ignored, bareDeclaration_spells.consuming⟩
  · exact ⟨e.endlessLoop_ignored, endlessLoop_spells.consuming⟩

/-! ## What the rules look at -/

theorem isPrefixOf_eq (w : List Char) (text : List Char) :
    w.isPrefixOf text = (literal w text).isSome := by
  rw [Bool.eq_iff_iff, List.isPrefixOf_iff_prefix, Option.isSome_iff_exists]
  simp only [literal_eq_some_iff]
  exact exists_congr fun rest => eq_comm

theorem holds_blanks {w : String} (hw : isSolid w = true) {b : List Char} (hb : AllBlank b)
    (text : List Char) : holds w.toList (b ++ text) = holds w.toList text := by
  induction b with
  | nil => rfl
  | cons c b ih =>
    obtain ⟨hc, hb⟩ := List.forall_mem_cons.mp hb
    have hword := word_blank hw hc (b ++ text)
    rw [word] at hword
    rw [List.cons_append, holds, isPrefixOf_eq, hword, ih hb]
    rfl

theorem holds_written {w : String} (hw : isSolid w = true) (text : List Char) :
    holds w.toList (e.written text) = holds w.toList text := by
  induction text with
  | nil => rw [written_nil, ← List.append_nil e.tail, holds_blanks hw e.tail_blank]
  | cons c cs ih =>
    cases hc : isBlank c with
    | true =>
      have hcons := @holds_blanks w hw [c] (List.forall_mem_singleton.mpr hc) cs
      rw [written_cons, holds_blanks hw (e.spell_blank hc), ih, ← hcons]
      rfl
    | false =>
      have hword := e.word_written hw (c :: cs)
      rw [e.written_cons_solid hc, word, word] at hword
      rw [e.written_cons_solid hc, holds, holds, isPrefixOf_eq, isPrefixOf_eq, hword, ih,
        Option.isSome_map]

theorem isReleased_moved (front : List Char) (o : Occurrence) :
    isReleased (e.moved front o) = isReleased o := by
  obtain ⟨e', htake⟩ := e.exists_takeWhile_written (x := '\x7d') (by decide) o.after
  rw [isReleased, isReleased, moved, htake]
  exact e'.holds_written (by decide) _

theorem isAssigned_moved (front : List Char) (o : Occurrence) :
    isAssigned (e.moved front o) = isAssigned o := by
  obtain ⟨e', htake⟩ := e.exists_takeWhile_written (x := ';') (by decide) o.after
  rw [isAssigned, isAssigned, moved, htake, Bool.eq_iff_iff, List.contains_iff_mem,
    List.contains_iff_mem, e'.mem_written_iff (by decide)]

/-- A test of what stands before is one of two series of marks. -/
theorem testsPrevious_eq (text : List Char) : testsPrevious text
    = ((((mark "!=" text).bind (mark "NULL")).bind (mark "&&")).isSome
      || (mark "&&" text).isSome) := by
  simp only [testsPrevious, isPrefixOf_eq, mark]
  cases hne : word "!=" (blanks text) with
  | none => rfl
  | some r =>
    have hnone : word "&&" (blanks text) = none := by
      rw [word_eq_some_iff.mp hne]
      rfl
    rw [hnone, Option.bind_some, mark]
    dsimp only
    cases word "NULL" (blanks r) with
    | none => exact congrArg Option.isSome hnone
    | some r => exact (Bool.or_false _).symm

theorem testsPrevious_written (text : List Char) :
    testsPrevious (e.written text) = testsPrevious text := by
  have hnull : ((mark "!=" (e.written text)).bind (mark "NULL")).bind (mark "&&")
      = (((mark "!=" text).bind (mark "NULL")).bind (mark "&&")).map e.written := by
    simp only [e.mark_written (m := "!=") (by decide), e.mark_written (m := "NULL") (by decide),
      e.mark_written (m := "&&") (by decide), Option.bind_assoc, Option.bind_map, Option.map_bind,
      Function.comp_def]
  rw [testsPrevious_eq, testsPrevious_eq, hnull, e.mark_written (m := "&&") (by decide),
    Option.isSome_map, Option.isSome_map]

set_option maxRecDepth 4096 in
theorem isNameChar_of_isBlank {c : Char} (h : isBlank c = true) : isNameChar c = false := by
  have hpoints : ∀ n ∈ blankPoints, inRanges n alphanumericRanges = false ∧ n ≠ '_'.toNat := by
    decide
  obtain ⟨hranges, hne⟩ := hpoints c.toNat (mem_blankPoints h)
  have hunderscore : c ≠ '_' := by
    rintro rfl
    exact hne rfl
  rw [isNameChar, decide_eq_false hunderscore, Bool.or_false]
  exact hranges

/-! ## Tests on a line -/

/-- The character before is taken for a part of the name. -/
def nameBefore (before : Option Char) : Bool := (before.map isNameChar).getD false

/-- A variable is tested in a text, with a given character before it. -/
def testedFrom (x : List Char) (before : Option Char) (text : List Char) : Bool :=
  (places x before text).any fun place => !nameBefore place.1 && testsPrevious place.2

theorem isTested_eq (x text : List Char) : isTested x text = testedFrom x none text := rfl

section
variable {x : List Char}

theorem testedFrom_nil (before : Option Char) : testedFrom x before [] = false := by
  rw [testedFrom, places]
  rfl

theorem testedFrom_of_none {c : Char} {cs : List Char} (h : literal x (c :: cs) = none)
    (before : Option Char) : testedFrom x before (c :: cs) = testedFrom x (some c) cs := by
  rw [testedFrom, places, h]
  rfl

theorem testedFrom_append (hx : x ≠ []) (before : Option Char) (rest : List Char) :
    testedFrom x before (x ++ rest)
      = (!nameBefore before && testsPrevious rest || testedFrom x x.getLast? rest) := by
  have hread : literal x (x ++ rest) = some rest := literal_eq_some_iff.mpr rfl
  obtain ⟨c, cs, hcons⟩ := List.exists_cons_of_ne_nil hx
  have hlt : rest.length < (c :: (cs ++ rest)).length := by
    rw [List.length_cons, List.length_append]
    omega
  have htext : x ++ rest = c :: (cs ++ rest) := by rw [hcons, List.cons_append]
  rw [htext] at hread ⊢
  rw [testedFrom, places, hread]
  simp only [if_pos hlt, List.any_cons]
  rfl

theorem testedFrom_congr {before before' : Option Char} (h : nameBefore before = nameBefore before')
    (text : List Char) : testedFrom x before text = testedFrom x before' text := by
  cases text with
  | nil => rw [testedFrom_nil, testedFrom_nil]
  | cons c cs =>
    rw [testedFrom, testedFrom, places, places]
    split
    · split
      · simp only [List.any_cons, h]
      · rfl
    · rfl

variable (hxne : x ≠ []) (hx : AllWord x)
include hxne hx

/-- Names do not begin with a blank, and end before one. -/
theorem testedFrom_blanks {w : List Char} (hne : w ≠ []) (hw : AllBlank w) (before : Option Char)
    (text : List Char) : testedFrom x before (w ++ text) = testedFrom x none text := by
  induction w generalizing before with
  | nil => exact absurd rfl hne
  | cons c w ih =>
    obtain ⟨hc, hw⟩ := List.forall_mem_cons.mp hw
    obtain ⟨d, ds, rfl⟩ := List.exists_cons_of_ne_nil hxne
    have hd : isBlank d = false := isBlank_of_isWord (hx d List.mem_cons_self)
    have hnone : literal (d :: ds) (c :: (w ++ text)) = none :=
      (BlankStart.cons hc (w ++ text)).literal hd ds
    have hname : nameBefore (some c) = nameBefore none := isNameChar_of_isBlank hc
    rw [List.cons_append, testedFrom_of_none hnone,
      testedFrom_congr hname]
    cases w with
    | nil => rfl
    | cons c' w => exact ih (List.cons_ne_nil c' w) hw none

theorem testedFrom_written (before : Option Char) (text : List Char) :
    testedFrom x before (e.written text) = testedFrom x before text := by
  induction before, text using places.induct x with
  | case1 before =>
    by_cases htail : e.tail = []
    · rw [written_nil, htail]
    · rw [written_nil, ← List.append_nil e.tail, testedFrom_blanks hxne hx htail e.tail_blank,
        testedFrom_nil, testedFrom_nil]
  | case2 before c cs rest hread hlt ih =>
    have hsolid : ∀ c ∈ x, isBlank c = false := fun c hc => isBlank_of_isWord (hx c hc)
    rw [literal_eq_some_iff.mp hread, written_append, e.spelt_solid hsolid, testedFrom_append hxne,
      testedFrom_append hxne, testsPrevious_written, ih]
  | case3 before c cs rest hread hnlt ih =>
    have hwhole := (literal_eq_some_iff.mp hread).symm
    rw [← hwhole, List.length_append] at hnlt
    have hpos := List.length_pos_iff.mpr hxne
    omega
  | case4 before c cs hread ih =>
    rw [testedFrom_of_none hread, ← ih]
    cases hc : isBlank c with
    | true =>
      -- another character may stand before what follows, but it is a blank as well
      have hname : nameBefore none = nameBefore (some c) := (isNameChar_of_isBlank hc).symm
      rw [written_cons, testedFrom_blanks hxne hx (e.spell_ne_nil c) (e.spell_blank hc)]
      exact testedFrom_congr hname _
    | false =>
      have hsolid : ∀ c ∈ x, isBlank c = false := fun c hc => isBlank_of_isWord (hx c hc)
      have hnone := e.literal_written hsolid (c :: cs)
      rw [hread, e.written_cons_solid hc] at hnone
      rw [e.written_cons_solid hc, testedFrom_of_none hnone]

end

/-- What stands on the last line of blanks, or behind the last line feed that was written. -/
theorem allBlank_takeWhile_back {front behind : List Char} (hfront : AllBlank front)
    (hbehind : ∀ c, behind.head? = some c → c = '\n') :
    AllBlank ((e.back front behind).takeWhile (· ≠ '\n')) := by
  cases behind with
  | nil =>
    intro c hc
    rw [back, List.reverse_nil, spelt_nil, List.append_nil] at hc
    exact allBlank_reverse hfront c ((List.takeWhile_sublist _).subset hc)
  | cons c behind =>
    -- a line feed is written with one in it, so the line begins among the blanks that it is written as
    obtain rfl := hbehind c rfl
    have hmem : '\n' ∈ (e.spell '\n').reverse := by
      rw [List.mem_reverse, ← List.count_pos_iff, e.count_spell]
      decide
    have hblank := allBlank_reverse (e.spell_blank (c := '\n') (by decide))
    obtain ⟨a, b, hab, ha⟩ := List.eq_append_cons_of_mem hmem
    have hback : e.back front ('\n' :: behind) = a ++ '\n' :: (b ++ e.back front behind) := by
      rw [back_cons, hab, List.append_assoc]
      rfl
    intro c hc
    rw [hback, (span_cons ha _).1] at hc
    exact hblank c (hab ▸ List.mem_append_left _ hc)

/-- The line before an occurrence is written alike, up to blanks at its start. -/
theorem exists_lineBefore_moved {front : List Char} (hfront : AllBlank front) (o : Occurrence) :
    ∃ w, AllBlank w ∧ (e.moved front o).lineBefore = w ++ e.spelt o.lineBefore := by
  obtain ⟨hparts, hrun, hhead⟩ :=
    span_eq_iff.mp ⟨(List.reverse_reverse (o.behind.takeWhile (· ≠ '\n'))).symm, rfl⟩
  have hfeed : '\n' ∉ (e.spelt o.lineBefore).reverse := by
    intro hmem
    rw [List.mem_reverse, ← List.count_pos_iff, count_spelt, List.count_pos_iff] at hmem
    simpa using hrun '\n' (List.mem_reverse.mpr hmem)
  have hblank : AllBlank ((e.back front (o.behind.dropWhile (· ≠ '\n'))).takeWhile (· ≠ '\n')) :=
    e.allBlank_takeWhile_back hfront fun c hc => by simpa using hhead c hc
  refine ⟨_, allBlank_reverse hblank, ?_⟩
  have hback : e.back front o.behind = (e.spelt o.lineBefore).reverse
      ++ e.back front (o.behind.dropWhile (· ≠ '\n')) := by
    rw [← back_append]
    exact congrArg (e.back front) hparts
  rw [Occurrence.lineBefore, moved, hback, List.takeWhile_append_of_pos (run_of_not_mem hfeed),
    List.reverse_append, List.reverse_reverse]

theorem isGuarded_moved {front : List Char} (hfront : AllBlank front) {text : List Char}
    {o : Occurrence} (ho : o ∈ memberAccess.occurrences text) :
    isGuarded (e.moved front o) = isGuarded o := by
  obtain ⟨x, hcaptured, hxne, hx⟩ := exists_variable ho
  obtain ⟨w, hw, hline⟩ := e.exists_lineBefore_moved hfront o
  have hcaptured' : (e.moved front o).captured = [x] := hcaptured
  have hspelt := e.bare.testedFrom_written hxne hx none o.lineBefore
  rw [bare_written] at hspelt
  rw [isGuarded_eq hcaptured', isGuarded_eq hcaptured, hline, isTested_eq, isTested_eq, ← hspelt]
  by_cases hne : w = []
  · rw [hne, List.nil_append]
  · exact testedFrom_blanks hxne hx hne hw none _

/-! ## Findings -/

theorem discards_moved {front : List Char} (hfront : AllBlank front) {r : Rule} (hr : r ∈ rules)
    {text : List Char} {o : Occurrence} (ho : o ∈ r.pattern.occurrences text) :
    r.discards (e.moved front o) = r.discards o := by
  simp only [rules, List.mem_cons, List.not_mem_nil, or_false] at hr
  rcases hr with rfl | rfl | rfl | rfl | rfl
  · exact e.isReleased_moved front o
  · rfl
  · exact e.isGuarded_moved hfront ho
  · exact e.isAssigned_moved front o
  · rfl

end Respacing

/-- A lexical finding some lines further down. -/
def Finding.movedDown (f : Finding) (lines : Nat) : Finding :=
  { f with
    line := f.line + lines
    description :=
      "Potential " ++ f.category.name ++ " detected at line " ++ toString (f.line + lines) }

namespace Lexical

theorem Rule.finding_moved (r : Rule) (e : Respacing) (front : List Char) (o : Occurrence) :
    r.finding (e.moved front o) = (r.finding o).movedDown (front.count '\n') := by
  have hline : (e.moved front o).line = o.line + front.count '\n' := by
    rw [Occurrence.line, Respacing.moved, e.count_back, Occurrence.line]
    omega
  rw [Rule.finding, hline]
  rfl

theorem Rule.findings_written {r : Rule} (hr : r ∈ rules) (e : Respacing) {front : List Char}
    (hfront : AllBlank front) (text : List Char) :
    r.findings (front ++ e.written text)
      = (r.findings text).map (·.movedDown (front.count '\n')) := by
  obtain ⟨hignored, hcons⟩ := e.ignored_of_mem_rules hr
  rw [Rule.findings, hignored.occurrences_written hfront (lawful_of_mem_rules hr) hcons,
    Rule.findings, List.filter_map, List.map_map, List.map_map]
  have hkept : (r.pattern.occurrences text).filter ((fun o => !r.discards o) ∘ e.moved front)
      = (r.pattern.occurrences text).filter fun o => !r.discards o := by
    refine List.filter_congr fun o ho => ?_
    rw [Function.comp_apply, e.discards_moved hfront hr ho]
  rw [hkept]
  exact List.map_congr_left fun o _ => r.finding_moved e front o

/-- The findings do not depend on how the blanks are written. -/
theorem scan_written (e : Respacing) {front : List Char} (hfront : AllBlank front)
    {text text' : String} (htext : text'.toList = front ++ e.written text.toList) :
    scan text' = (scan text).map (·.movedDown (front.count '\n')) := by
  rw [scan, scan, htext, List.map_flatMap]
  exact List.flatMap_congr fun r hr => Rule.findings_written hr e hfront text.toList

theorem map_line_movedDown (findings : List Finding) (lines : Nat) :
    (findings.map (·.movedDown lines)).map (·.line) = (findings.map (·.line)).map (· + lines) := by
  rw [List.map_map, List.map_map]
  rfl

theorem map_movedDown_zero (text : String) : (scan text).map (·.movedDown 0) = scan text := by
  refine (List.map_congr_left fun f hf => ?_).trans (List.map_id _)
  obtain ⟨o, r, -, -, -, rfl⟩ := mem_scan_iff.mp hf
  rfl

/-- A line feed with a carriage return before it. -/
def withReturn (c : Char) : List Char := if c = '\n' then ['\r', '\n'] else [c]

theorem withReturn_of_ne {c : Char} (h : c ≠ '\n') : withReturn c = [c] := if_neg h

/-- A text with a carriage return before each line feed. -/
def withReturns (text : String) : String := String.ofList (text.toList.flatMap withReturn)

theorem allBlank_withReturn {c : Char} (hc : isBlank c = true) : AllBlank (withReturn c) := by
  by_cases h : c = '\n'
  · rw [h]
    exact List.all_eq_true.mp (by decide)
  · rw [withReturn_of_ne h]
    exact List.forall_mem_singleton.mpr hc

theorem count_withReturn (c : Char) : (withReturn c).count '\n' = [c].count '\n' := by
  by_cases h : c = '\n'
  · rw [h]
    rfl
  · rw [withReturn_of_ne h]

/-- The respacing that writes the returns. -/
def returns : Respacing where
  spell := withReturn
  tail := []
  spell_solid := by
    intro c hc
    refine withReturn_of_ne ?_
    rintro rfl
    exact absurd hc (by decide)
  spell_ne_nil c := by
    rw [withReturn]
    split <;> exact List.cons_ne_nil _ _
  spell_blank := allBlank_withReturn
  count_spell := count_withReturn
  tail_blank := Respacing.allBlank_nil

/-- The respacing that adds blanks behind the text. -/
def padding {back : List Char} (h : AllBlank back) : Respacing where
  spell c := [c]
  tail := back
  spell_solid _ := rfl
  spell_ne_nil c := List.cons_ne_nil c []
  spell_blank hc := List.forall_mem_singleton.mpr hc
  count_spell _ := rfl
  tail_blank := h

/-! ## Main result -/

/-- The findings on a text are the same with a carriage return before each line feed. With blanks
around the text they are the same but for their lines, which move down by the line feeds before it. -/
theorem scan_of_other_blanks (text : String) :
    scan (withReturns text) = scan text ∧
    ∀ front back : String, AllBlank front.toList → AllBlank back.toList →
      scan (front ++ text ++ back) = (scan text).map (·.movedDown (front.toList.count '\n')) := by
  constructor
  · have hreturns : (withReturns text).toList = [] ++ returns.written text.toList := by
      rw [withReturns, String.toList_ofList, List.nil_append]
      exact (List.append_nil _).symm
    exact (scan_written returns Respacing.allBlank_nil hreturns).trans (map_movedDown_zero text)
  · intro front back hfront hback
    have hpadded : (front ++ text ++ back).toList
        = front.toList ++ (padding hback).written text.toList := by
      have hspelt : (padding hback).spelt text.toList = text.toList := List.flatMap_singleton' _
      rw [String.toList_append, String.toList_append, List.append_assoc, Respacing.written, hspelt]
      rfl
    exact scan_written (padding hback) hfront hpadded

/-- The first dereference is tested, and the loop runs over two lines. -/
def spacedText : String := "p && p->m; q->n;\nint x;\nfor (;\n;) x = 1;"

theorem scan_of_other_blanks_around :
    AllBlank "\t\n\r\n ".toList ∧ AllBlank "\n\u00a0".toList ∧
    (scan spacedText).map (·.line) = [1, 2, 3] ∧
    (scan ("\t\n\r\n " ++ spacedText ++ "\n\u00a0")).map (·.line) = [3, 4, 5] ∧
    (scan (withReturns spacedText)).map (·.line) = [1, 2, 3] := by
  have hfront : AllBlank "\t\n\r\n ".toList := List.all_eq_true.mp (by decide)
  have hback : AllBlank "\n\u00a0".toList := List.all_eq_true.mp (by decide)
  have hfeeds : "\t\n\r\n ".toList.count '\n' = 2 := by decide
  have hlines : (scan spacedText).map (·.line) = [1, 2, 3] := by decide +kernel
  obtain ⟨hreturns, hpadded⟩ := scan_of_other_blanks spacedText
  refine ⟨hfront, hback, hlines, ?_, ?_⟩
  · rw [hpadded _ _ hfront hback, hfeeds, map_line_movedDown, hlines]
    rfl
  · rw [hreturns]
    exact hlines

end Lexical

end DefectScan
