import DefectScan.Learning.Corpus
import DefectScan.Proofs.DirectoryFiles
import DefectScan.Proofs.Lines
import DefectScan.Proofs.RoundTrips

/-!
# Files of examples

A file holds examples as one array or as one object on each line (`Holds`), and in either layout they
are read back as they are:

    Holds es text → ofText text = .ok es

The two are told apart by the first character that is not blank, and a file of lines is cut at line
feeds before anything is read. So what counts of an object is that its text begins with a brace, ends
with one and has no line feed inside (`not_mem_compact`), whatever the example holds.
-/

namespace DefectScan

open Text

/-! ## Lines that are seen -/

namespace Text.Lines

theorem seen_append_newline {l : List Char} (h : '\n' ∉ l) (rest : List Char) :
    seen (l ++ '\n' :: rest) = dropCarriageReturn l :: seen rest := by
  have hsplit : split (l ++ '\n' :: rest) = l :: split rest := by
    rw [split_append_newline, split_of_not_mem l h]
    rfl
  obtain ⟨m, ms, hrest⟩ := List.exists_cons_of_ne_nil (split_ne_nil rest)
  simp only [seen, hsplit, hrest, List.dropLast_cons_cons, List.map_cons, List.getLast?_cons_cons]
  split <;> rfl

theorem seen_of_not_mem {l : List Char} (h : '\n' ∉ l) : seen l = [l].filter (· ≠ []) := by
  simp only [seen, split_of_not_mem l h, List.dropLast_singleton, List.map_nil,
    List.getLast?_singleton]
  cases l <;> simp

theorem dropCarriageReturn_append (l : List Char) : dropCarriageReturn (l ++ ['\r']) = l := by
  rw [dropCarriageReturn, List.getLast?_append, List.getLast?_singleton, List.dropLast_concat]
  rfl

theorem mem_of_mem_dropCarriageReturn {l : List Char} {c : Char}
    (h : c ∈ dropCarriageReturn l) : c ∈ l := by
  unfold dropCarriageReturn at h
  split at h
  · exact List.mem_of_mem_dropLast h
  · exact h

end Text.Lines

theorem Text.trimLeft_append {blanks : List Char} (h : ∀ c ∈ blanks, isBlank c = true)
    (rest : List Char) : trimLeft (blanks ++ rest) = trimLeft rest :=
  List.dropWhile_append_of_pos h

theorem Text.trimLeft_cons {c : Char} (h : isBlank c = false) (rest : List Char) :
    trimLeft (c :: rest) = c :: rest :=
  List.dropWhile_cons_of_neg (by simp [h])

theorem Text.isEmpty_trim {blanks : List Char} (h : ∀ c ∈ blanks, isBlank c = true) :
    (trim blanks).isEmpty = true := by
  have hleft : trimLeft blanks = [] := List.dropWhile_eq_nil_iff.mpr h
  rw [trim, hleft]
  rfl

theorem Text.isEmpty_trim_of_head {c : Char} (h : isBlank c = false) (rest : List Char) :
    (trim (c :: rest)).isEmpty = false := by
  have hmem : c ∈ trimRight (c :: rest) := by
    rw [trimRight, List.mem_reverse, List.reverse_cons, List.dropWhile_append]
    split
    · rw [List.dropWhile_cons_of_neg (by simp [h])]
      exact List.mem_singleton_self c
    · exact List.mem_append_right _ (List.mem_singleton_self c)
  rw [trim, trimLeft_cons h]
  exact List.isEmpty_eq_false_iff.mpr (List.ne_nil_of_mem hmem)

/-! ## The text of an example -/

namespace Json

theorem not_mem_escape (c : Char) : '\n' ∉ escape c := by
  have hdigit : ∀ n : Fin 16, '\n' ≠ hexDigit n := by decide
  unfold escape
  split_ifs with _ _ _ _ hfeed _ _ hcontrol
  -- first a control character, written by its digits, and a character that stands for itself
  rotate_left 7
  · have hhigh := hdigit ⟨c.toNat / 16, by omega⟩
    have hlow := hdigit ⟨c.toNat % 16, by omega⟩
    simp [hhigh, hlow]
  · simpa using Ne.symm hfeed
  all_goals decide

theorem not_mem_quote (s : String) : '\n' ∉ quote s := by
  simp [quote, not_mem_escape]

theorem not_mem_writeItems {items : List Json} (h : ∀ j ∈ items, '\n' ∉ writeCompact j) :
    '\n' ∉ writeItems items := by
  induction items with
  | nil => simp [writeItems]
  | cons j items ih =>
    have hfirst := h j List.mem_cons_self
    have hrest := ih fun k hk => h k (List.mem_cons_of_mem j hk)
    cases items with
    | nil => exact hfirst
    | cons k items => simp [writeItems, hfirst, hrest]

end Json

namespace Example

/-- The text of an example is an object on one line. -/
theorem compact_eq (e : Example) :
    ∃ inside, e.encode.compact.toList = '\x7b' :: (inside ++ ['\x7d']) ∧ '\n' ∉ inside := by
  refine ⟨_, by rw [Json.compact, String.toList_ofList, encode, Json.writeCompact], ?_⟩
  have hlabels : '\n' ∉ Json.writeItems (e.labels.map Category.encode) := by
    refine Json.not_mem_writeItems fun j hj => ?_
    obtain ⟨c, -, rfl⟩ := List.mem_map.mp hj
    exact Json.not_mem_quote c.name
  simp [Json.writeMembers, Json.writeCompact, Json.not_mem_quote, hlabels]

theorem not_mem_compact (e : Example) : '\n' ∉ e.encode.compact.toList := by
  obtain ⟨inside, hcompact, hinside⟩ := e.compact_eq
  rw [hcompact]
  simpa using hinside

theorem dropCarriageReturn_compact (e : Example) :
    Lines.dropCarriageReturn e.encode.compact.toList = e.encode.compact.toList := by
  obtain ⟨inside, hcompact, -⟩ := e.compact_eq
  rw [hcompact, ← List.cons_append, Lines.dropCarriageReturn, List.getLast?_append]
  rfl

theorem isEmpty_trim_compact (e : Example) : (trim e.encode.compact.toList).isEmpty = false := by
  obtain ⟨inside, hcompact, -⟩ := e.compact_eq
  rw [hcompact]
  exact isEmpty_trim_of_head (by decide) _

end Example

namespace Learning.Corpus

/-! ## Layouts -/

/-- The end of a line. -/
inductive LineEnd : List Char → Prop
  | feed : LineEnd ['\n']
  | returnFeed : LineEnd ['\r', '\n']

/-- One example on each line, with blank lines anywhere. The last line may lack its end. -/
inductive Rows : List Example → List Char → Prop
  | lastBlank {blanks : List Char} : (∀ c ∈ blanks, isBlank c = true) → '\n' ∉ blanks → Rows [] blanks
  | last (e : Example) : Rows [e] e.encode.compact.toList
  | blank {blanks lineEnd text : List Char} {es : List Example} :
    (∀ c ∈ blanks, isBlank c = true) → '\n' ∉ blanks → LineEnd lineEnd → Rows es text →
    Rows es (blanks ++ lineEnd ++ text)
  | row (e : Example) {lineEnd text : List Char} {es : List Example} : LineEnd lineEnd →
    Rows es text → Rows (e :: es) (e.encode.compact.toList ++ lineEnd ++ text)

/-- The examples as one value. -/
def array (es : List Example) : Json := .arr (es.map Example.encode)

/-- The texts that hold some examples: an array, compact or in lines, behind any blanks, or rows. -/
inductive Holds (es : List Example) : List Char → Prop
  | compact {blanks : List Char} : (∀ c ∈ blanks, isBlank c = true) →
    Holds es (blanks ++ (array es).compact.toList)
  | pretty {blanks : List Char} : (∀ c ∈ blanks, isBlank c = true) →
    Holds es (blanks ++ (array es).pretty.toList)
  | rows {text : List Char} : Rows es text → Holds es text

/-! ## Arrays -/

theorem head?_compact_array (es : List Example) : (array es).compact.toList.head? = some '[' := by
  rw [Json.compact, String.toList_ofList, array, Json.writeCompact]
  rfl

theorem head?_pretty_array (es : List Example) : (array es).pretty.toList.head? = some '[' := by
  rw [Json.pretty, String.toList_ofList, array]
  cases es <;> simp [Json.writePretty]

theorem decode_array {es : List Example} (hes : ∀ e ∈ es, e.Representable) :
    Json.Decode.list Example.decode (Json.docOf (array es)) = .ok es := by
  have hlist : Json.Decode.Written (Json.Decode.list Example.decode) (array es) es (∀ e ∈ es, True) :=
    Json.Decode.written_list fun e he => .of_ok (Example.decode_encode (hes e he))
  exact hlist.accepted fun _ _ => trivial

theorem ofText_array {blanks text : List Char} (hblanks : ∀ c ∈ blanks, isBlank c = true)
    (hhead : text.head? = some '[') : ofText (String.ofList (blanks ++ text))
      = Json.decodeText (Json.Decode.list Example.decode) text := by
  obtain ⟨rest, rfl⟩ : ∃ rest, text = '[' :: rest := by
    cases text with
    | nil => cases hhead
    | cons c rest =>
      cases hhead
      exact ⟨rest, rfl⟩
  rw [ofText, String.toList_ofList, trimLeft_append hblanks, trimLeft_cons (by decide)]
  exact if_pos rfl

/-! ## Rows -/

theorem LineEnd.isBlank {lineEnd : List Char} (h : LineEnd lineEnd) :
    ∀ c ∈ lineEnd, isBlank c = true := by
  have hfeed : Text.isBlank '\n' = true := by decide
  have hreturn : Text.isBlank '\r' = true := by decide
  cases h with
  | feed => simp [hfeed]
  | returnFeed => simp [hfeed, hreturn]

/-- A line with its end. A carriage return before the line feed belongs to the end; if the end has one
of its own, the line stays as it is. -/
theorem filledLines_line {line lineEnd : List Char} (hline : '\n' ∉ line) (h : LineEnd lineEnd)
    (text : List Char) :
    ∃ shown, (shown = line ∨ shown = Lines.dropCarriageReturn line) ∧
      filledLines (line ++ lineEnd ++ text)
        = [shown].filter (fun l => !(trim l).isEmpty) ++ filledLines text := by
  cases h with
  | feed =>
    refine ⟨_, .inr rfl, ?_⟩
    rw [List.append_assoc, List.singleton_append, filledLines, Lines.seen_append_newline hline,
      ← List.singleton_append, List.filter_append]
    rfl
  | returnFeed =>
    refine ⟨_, .inl rfl, ?_⟩
    have htext : line ++ ['\r', '\n'] ++ text = line ++ ['\r'] ++ '\n' :: text := by simp
    rw [htext, filledLines, Lines.seen_append_newline (by simpa using hline),
      Lines.dropCarriageReturn_append, ← List.singleton_append, List.filter_append]
    rfl

theorem filledLines_blank {blanks lineEnd : List Char} (hblanks : ∀ c ∈ blanks, isBlank c = true)
    (hline : '\n' ∉ blanks) (h : LineEnd lineEnd) (text : List Char) :
    filledLines (blanks ++ lineEnd ++ text) = filledLines text := by
  obtain ⟨shown, hshown, hlines⟩ := filledLines_line hline h text
  have hempty : (trim shown).isEmpty = true := by
    refine isEmpty_trim fun c hc => hblanks c ?_
    rcases hshown with rfl | rfl
    · exact hc
    · exact Lines.mem_of_mem_dropCarriageReturn hc
  rw [hlines, List.filter_cons_of_neg (by simp [hempty])]
  rfl

theorem filledLines_example (e : Example) {lineEnd : List Char} (h : LineEnd lineEnd)
    (text : List Char) : filledLines (e.encode.compact.toList ++ lineEnd ++ text)
      = e.encode.compact.toList :: filledLines text := by
  obtain ⟨shown, hshown, hlines⟩ := filledLines_line e.not_mem_compact h text
  have hsame : shown = e.encode.compact.toList := by
    rcases hshown with hshown | hshown
    · exact hshown
    · rw [hshown, e.dropCarriageReturn_compact]
  rw [hlines, hsame, List.filter_cons_of_pos (by simp [e.isEmpty_trim_compact])]
  rfl

theorem Rows.filledLines_eq {es : List Example} {text : List Char} (h : Rows es text) :
    filledLines text = es.map fun e => e.encode.compact.toList := by
  induction h with
  | @lastBlank blanks hblanks hline =>
    have hempty := isEmpty_trim hblanks
    rw [filledLines, Lines.seen_of_not_mem hline]
    simp [hempty]
  | last e =>
    have hfilled := e.isEmpty_trim_compact
    obtain ⟨inside, hcompact, -⟩ := e.compact_eq
    rw [filledLines, Lines.seen_of_not_mem e.not_mem_compact]
    rw [hcompact] at hfilled
    simp [hcompact, hfilled]
  | blank hblanks hline hend _ ih => rw [filledLines_blank hblanks hline hend, ih]
  | row e hend _ ih => rw [filledLines_example e hend, ih, List.map_cons]

/-- Rows are not taken for an array. -/
theorem Rows.head?_trimLeft {es : List Example} {text : List Char} (h : Rows es text) :
    (trimLeft text).head? ≠ some '[' := by
  have hbrace : isBlank '\x7b' = false := by decide
  induction h with
  | lastBlank hblanks =>
    have hnil : trimLeft _ = [] := List.dropWhile_eq_nil_iff.mpr hblanks
    rw [hnil]
    simp
  | last e =>
    obtain ⟨inside, hcompact, -⟩ := e.compact_eq
    rw [hcompact, trimLeft_cons hbrace]
    simp
  | blank hblanks _ hend _ ih =>
    rwa [List.append_assoc, trimLeft_append hblanks, trimLeft_append hend.isBlank]
  | row e _ _ _ =>
    obtain ⟨inside, hcompact, -⟩ := e.compact_eq
    rw [hcompact, List.append_assoc, List.cons_append, trimLeft_cons hbrace]
    simp

theorem mapM_compact {es : List Example} (hes : ∀ e ∈ es, e.Representable) :
    (es.map fun e => e.encode.compact.toList).mapM (Json.decodeText Example.decode) = .ok es := by
  induction es with
  | nil => rfl
  | cons e es ih =>
    rw [List.forall_mem_cons] at hes
    rw [List.map_cons, List.mapM_cons, Json.decodeText_compact, Example.decode_encode hes.1, ih hes.2]
    rfl

/-! ## Main result -/

theorem Holds.ofText_eq {es : List Example} {text : List Char} (h : Holds es text)
    (hes : ∀ e ∈ es, e.Representable) : ofText (String.ofList text) = .ok es := by
  cases h with
  | compact hblanks =>
    rw [ofText_array hblanks (head?_compact_array es), Json.decodeText_compact, decode_array hes]
  | pretty hblanks =>
    rw [ofText_array hblanks (head?_pretty_array es), Json.decodeText_pretty, decode_array hes]
  | rows hrows =>
    rw [ofText, String.toList_ofList]
    exact (if_neg hrows.head?_trimLeft).trans (by rw [hrows.filledLines_eq, mapM_compact hes])

theorem run_read {root : Entry} {path text : String} {es : List Example}
    (hfile : root.read path = .ok text.toUTF8) (h : ofText text = .ok es) :
    (Corpus.read path : TreeM (Except Error (List Example))).run root = (.ok es, root) := by
  have hvalid : String.fromUTF8? text.toUTF8 = some text := dif_pos text.isValidUTF8
  have hread : (Files.readText path : TreeM (Except FileError String)).run root = (.ok text, root) := by
    rw [Files.readText, StateT.run_bind, TreeM.run_read, hfile]
    simp only [Bind.bind, hvalid]
    rfl
  rw [Corpus.read, StateT.run_bind, hread]
  simp only [Bind.bind, h]
  rfl

/-- Examples are read from a file that holds them, in whichever layout, as they are and in their
order. -/
theorem read_of_holds (es : List Example) (hes : ∀ e ∈ es, e.Representable) {text : List Char}
    (h : Holds es text) {root : Entry} {path : String}
    (hfile : root.read path = .ok (String.ofList text).toUTF8) :
    (Corpus.read path : TreeM (Except Error (List Example))).run root = (.ok es, root) :=
  run_read hfile (h.ofText_eq hes)

/-- An example whose text begins as an array does and has line ends, and one with nothing. -/
def bracketAndEmpty : List Example := [⟨"[\n\r\n\"", [.memoryLeak, .syntaxError]⟩, ⟨"", []⟩]

/-- A blank line, an example, an empty line, and an example without a line end. -/
def bracketAndEmptyRows : List Char :=
  ['\u00a0'] ++ ['\r', '\n'] ++ ((Example.encode ⟨"[\n\r\n\"", [.memoryLeak, .syntaxError]⟩).compact.toList
    ++ ['\n'] ++ ([] ++ ['\r', '\n'] ++ (Example.encode ⟨"", []⟩).compact.toList))

theorem read_of_holds_rows :
    (∀ e ∈ bracketAndEmpty, e.Representable) ∧ Holds bracketAndEmpty bracketAndEmptyRows ∧
      (Corpus.read "/examples" : TreeM (Except Error (List Example))).run
          (.directory [("examples", .file (String.ofList bracketAndEmptyRows).toUTF8)])
        = (.ok bracketAndEmpty,
          .directory [("examples", .file (String.ofList bracketAndEmptyRows).toUTF8)]) := by
  have hes : ∀ e ∈ bracketAndEmpty, e.Representable := by
    unfold Example.Representable
    decide
  have hblank : ∀ c ∈ ['\u00a0'], isBlank c = true := by
    intro c hc
    rw [List.mem_singleton.mp hc]
    decide
  have hholds : Holds bracketAndEmpty bracketAndEmptyRows :=
    .rows (.blank hblank (by decide) .returnFeed (.row _ .feed (.blank (by simp) (by simp) .returnFeed
      (.last _))))
  exact ⟨hes, hholds, read_of_holds bracketAndEmpty hes hholds rfl⟩

end Learning.Corpus

end DefectScan
