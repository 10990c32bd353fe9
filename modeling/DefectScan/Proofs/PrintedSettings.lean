import DefectScan.Proofs.TidyLayers
import DefectScan.Proofs.TomlStrings

/-!
# Settings that are printed and read

The text of settings is read as one table with all settings in it:

    read (settingsText? settings) = some (settingsValue settings)

The reader goes through the text line by line. A header opens a table behind those that are there
(`lines?_header`), and each line adds its value to the table that is open (`lines?_lineText`).
-/

namespace DefectScan.Toml

/-! ## Keys -/

/-- A name that needs no quotes. -/
def isBare (name : String) : Bool := !name.toList.isEmpty && name.toList.all isBareKeyChar

theorem isBare_iff {name : String} :
    isBare name = true ↔ ∃ c cs, name.toList = c :: cs ∧ ∀ x ∈ c :: cs, isBareKeyChar x = true := by
  rw [isBare]
  cases name.toList <;> simp

theorem skipSpaces_of_head {c : Char} (h : isSpace c = false) (rest : List Char) :
    skipSpaces (c :: rest) = c :: rest :=
  List.dropWhile_cons_of_neg (by simp [h])

theorem simpleKey?_bare {name : String} (hname : isBare name = true) {rest : List Char}
    (hrest : ∀ c ∈ rest.head?, isBareKeyChar c = false) :
    simpleKey? (name.toList ++ rest) = some (name, rest) := by
  obtain ⟨c, cs, hcs, hbare⟩ := isBare_iff.mp hname
  have hc := hbare c List.mem_cons_self
  have htake : (name.toList ++ rest).takeWhile isBareKeyChar = name.toList := by
    rw [List.takeWhile_append_of_pos (hcs ▸ hbare)]
    cases rest with
    | nil => simp
    | cons d rest => simp [hrest d rfl]
  have hdrop : (name.toList ++ rest).dropWhile isBareKeyChar = rest := by
    rw [List.dropWhile_append_of_pos (hcs ▸ hbare)]
    cases rest with
    | nil => rfl
    | cons d rest => simp [hrest d rfl]
  unfold simpleKey?
  split
  · next heq =>
    rw [hcs, List.cons_append] at heq
    exact absurd (List.cons.inj heq).1 (ne_of_class hc (by decide))
  · next heq =>
    rw [hcs, List.cons_append] at heq
    exact absurd (List.cons.inj heq).1 (ne_of_class hc (by decide))
  · simp only [htake, hdrop, String.ofList_toList]
    rw [hcs]
    rfl

/-- A key is read up to what stands behind the blanks after it. -/
theorem key?_bare {name : String} (hname : isBare name = true) {rest more : List Char}
    (hrest : ∀ c ∈ rest.head?, isBareKeyChar c = false) (hmore : skipSpaces rest = more)
    (hdot : more.head? ≠ some '.') (fuel : Nat) :
    key? (fuel + 1) (name.toList ++ rest) = some ([], name, more) := by
  have hstart : skipSpaces (name.toList ++ rest) = name.toList ++ rest := by
    obtain ⟨c, cs, hcs, hbare⟩ := isBare_iff.mp hname
    rw [hcs, List.cons_append]
    have hc := hbare c List.mem_cons_self
    exact skipSpaces_of_head (isSpace_of_ne (ne_of_class hc (by decide)) (ne_of_class hc (by decide))) _
  rw [key?, hstart, simpleKey?_bare hname hrest]
  simp only [Option.bind_eq_bind, Option.bind_some, hmore]
  split
  · exact absurd rfl hdot
  · rfl

/-! ## Lines -/

theorem skipLines_of_head {c : Char} (hspace : isSpace c = false) (hcomment : c ≠ '#') (hfeed : c ≠ '\n')
    (hreturn : c ≠ '\r') (fuel : Nat) (rest : List Char) :
    skipLines fuel (c :: rest) = some (c :: rest) := by
  have hskip : skipComment (c :: rest) = some (c :: rest) := by
    rw [skipComment]
    exact fun _ heq => hcomment (List.cons.inj heq).1
  cases fuel with
  | zero => rfl
  | succ fuel =>
    rw [skipLines, skipSpaces_of_head hspace, hskip]
    simp only [Option.bind_eq_bind, Option.bind_some, newline?_of_ne hfeed hreturn]
    rfl

theorem skipLines_bracket (fuel : Nat) (rest : List Char) :
    skipLines fuel ('[' :: rest) = some ('[' :: rest) :=
  skipLines_of_head (by decide) (by decide) (by decide) (by decide) fuel rest

theorem skipLines_bare {name : String} (hname : isBare name = true) (fuel : Nat) (rest : List Char) :
    skipLines fuel (name.toList ++ rest) = some (name.toList ++ rest) := by
  obtain ⟨c, cs, hcs, hbare⟩ := isBare_iff.mp hname
  have hne {x : Char} (hx : isBareKeyChar x = false) : c ≠ x :=
    ne_of_class (hbare c List.mem_cons_self) hx
  rw [hcs, List.cons_append]
  exact skipLines_of_head (isSpace_of_ne (hne (by decide)) (hne (by decide))) (hne (by decide))
    (hne (by decide)) (hne (by decide)) fuel _

theorem endLine_newline (rest : List Char) : endLine ('\n' :: rest) = some rest := rfl

/-- A header opens a table. -/
theorem lines?_header {name : String} (hname : isBare name = true) (fuel : Nat) (header : List String)
    (es : Entries) (rest : List Char) :
    lines? (fuel + 1) header es ('[' :: (name.toList ++ ']' :: '\n' :: rest))
      = (es.openTable [] name).bind fun es => lines? fuel [name] es rest := by
  have hkey : key? ((name.toList ++ ']' :: '\n' :: rest).length + 1) (name.toList ++ ']' :: '\n' :: rest)
      = some ([], name, ']' :: '\n' :: rest) :=
    key?_bare hname (fun c hc => by cases hc; decide) (skipSpaces_of_head (by decide) _) (by simp) _
  rw [lines?, skipLines_bracket]
  simp only [Option.bind_eq_bind, Option.bind_some]
  split
  · next heq => cases heq
  · next heq =>
    obtain ⟨c, cs, hcs, hbare⟩ := isBare_iff.mp hname
    rw [hcs, List.cons_append] at heq
    exact absurd (List.cons.inj (List.cons.inj heq).2).1
      (ne_of_class (hbare c List.mem_cons_self) (by decide))
  · next heq =>
    cases heq
    rw [hkey]
    simp only [Option.bind_some, endLine_newline, List.nil_append]
  · next hbracket => exact (hbracket _ rfl).elim

/-- A line adds its value to the table that is open. -/
theorem lines?_lineText {name : String} (hname : isBare name = true) {text : List Char} {v : ConfigValue}
    (htext : Denotes text v) (fuel : Nat) (header : List String) (es : Entries) (rest : List Char) :
    lines? (fuel + 1) header es (lineText name text ++ rest)
      = (es.addUnder header [] name v).bind fun es => lines? fuel header es rest := by
  have hline : lineText name text ++ rest
      = name.toList ++ ' ' :: '=' :: ' ' :: (text ++ '\n' :: rest) := by
    have hequals : " = ".toList = [' ', '=', ' '] := rfl
    simp [lineText, hequals]
  have hblank : skipSpaces (' ' :: '=' :: ' ' :: (text ++ '\n' :: rest))
      = '=' :: ' ' :: (text ++ '\n' :: rest) := rfl
  have hkey (fuel : Nat) : key? (fuel + 1) (name.toList ++ ' ' :: '=' :: ' ' :: (text ++ '\n' :: rest))
      = some ([], name, '=' :: ' ' :: (text ++ '\n' :: rest)) :=
    key?_bare hname (fun c hc => by cases hc; decide) hblank (by simp) fuel
  have hskip : skipSpaces (' ' :: (text ++ '\n' :: rest)) = text ++ '\n' :: rest := by
    cases text with
    | nil => rfl
    | cons c text => exact skipSpaces_of_head (htext.start c rfl) _
  rw [hline, lines?, skipLines_bare hname]
  simp only [Option.bind_eq_bind, Option.bind_some]
  obtain ⟨c, cs, hcs, hbare⟩ := isBare_iff.mp hname
  have hbracket : c ≠ '[' := ne_of_class (hbare c List.mem_cons_self) (by decide)
  split
  · next heq =>
    rw [hcs] at heq
    cases heq
  · next heq =>
    rw [hcs] at heq
    exact absurd (List.cons.inj heq).1 hbracket
  · next heq =>
    rw [hcs] at heq
    exact absurd (List.cons.inj heq).1 hbracket
  · rw [hkey]
    simp only [Option.bind_some, hskip, htext.read, endLine_newline]

/-! ## Tables -/

theorem put_append {α : Type} {key : String} {l : List (String × α)} (h : l.lookup key = none) (x : α)
    (l' : List (String × α)) : put key x (l ++ l') = l ++ put key x l' := by
  induction l with
  | nil => rfl
  | cons m l ih =>
    obtain ⟨k, y⟩ := m
    rw [List.lookup_cons] at h
    split at h
    · cases h
    · next hk =>
      rw [List.cons_append, put, if_neg (ne_of_beq_false hk).symm, ih h, List.cons_append]

/-- A new table comes behind the others. -/
theorem openTable_new {es : Entries} {name : String} (h : es.lookup name = none) :
    es.openTable [] name = some (es ++ [(name, .table [] .stated)]) := by
  have hset : es.set name (.table [] .stated) = es ++ [(name, .table [] .stated)] := by
    rw [Entries.set_eq_put, ← List.append_nil es, put_append h, List.append_nil]
    rfl
  rw [Entries.openTable, Entries.descend, h, hset]

/-- A new value comes behind the others in the last table. -/
theorem addUnder_last {es inner : Entries} {group name : String} (hgroup : es.lookup group = none)
    (hname : inner.lookup name = none) (v : ConfigValue) :
    (es ++ [(group, .table inner .stated)] : Entries).addUnder [group] [] name v
      = some (es ++ [(group, .table (inner ++ [(name, .value v)]) .stated)]) := by
  have hinner : Entries.addValue [] name v inner = some (inner ++ [(name, .value v)]) := by
    rw [Entries.addValue, Entries.descend, hname, Entries.set_eq_put, ← List.append_nil inner,
      put_append hname, List.append_nil]
    rfl
  have hlookup : (es ++ [(group, .table inner .stated)] : Entries).lookup group
      = some (.table inner .stated) := by
    rw [List.lookup_append, hgroup, List.lookup_cons_self, Option.none_or]
  rw [Entries.addUnder, Entries.descend, hlookup]
  simp only [Bool.false_and, Bool.false_eq_true, if_false, Entries.descend, hinner, Option.map_some,
    Entries.set_eq_put, put_append hgroup]
  simp [put]

/-- A line of a text with the member of a table that it writes. -/
structure Writes (line : String × List Char) (member : String × ConfigValue) : Prop where
  bare : isBare member.1 = true
  name : line.1 = member.1
  value : Denotes line.2 member.2

/-- The entries of values. -/
def valueEntries (members : List (String × ConfigValue)) : Entries := members.map fun m => (m.1, .value m.2)

theorem closeEntries_valueEntries (members : List (String × ConfigValue)) :
    closeEntries (valueEntries members) = members := by
  induction members with
  | nil => rfl
  | cons m members ih => exact congrArg₂ List.cons rfl ih

theorem lines?_lines {lines : List (String × List Char)} {members : List (String × ConfigValue)}
    (h : List.Forall₂ Writes lines members) {es : Entries} {group : String}
    (hgroup : es.lookup group = none) {before : List (String × ConfigValue)}
    (hnodup : ((before ++ members).map Prod.fst).Nodup) (fuel : Nat) (rest : List Char) :
    lines? (fuel + lines.length) [group] (es ++ [(group, .table (valueEntries before) .stated)])
        (lines.flatMap (fun l => lineText l.1 l.2) ++ rest)
      = lines? fuel [group] (es ++ [(group, .table (valueEntries (before ++ members)) .stated)]) rest := by
  induction h generalizing before with
  | nil => rw [List.append_nil]; rfl
  | @cons line member lines members hline hlines ih =>
    have hnew : (valueEntries before).lookup member.1 = none := by
      rw [List.map_append, List.map_cons, List.nodup_append] at hnodup
      rw [List.lookup_eq_none_iff]
      intro e he
      obtain ⟨m, hm, rfl⟩ := List.mem_map.mp he
      exact bne_iff_ne.mpr fun heq =>
        hnodup.2.2 m.1 (List.mem_map_of_mem hm) member.1 List.mem_cons_self heq.symm
    have hadd := addUnder_last hgroup hnew member.2
    rw [List.flatMap_cons, List.append_assoc, List.length_cons, ← Nat.add_assoc, hline.name,
      lines?_lineText hline.bare hline.value, hadd, Option.bind_some]
    have hbefore : valueEntries before ++ [(member.1, .value member.2)]
        = valueEntries (before ++ [member]) := by
      simp [valueEntries]
    rw [hbefore, ih (by simpa using hnodup)]
    simp

/-- A table is read line by line. -/
theorem lines?_tableText {lines : List (String × List Char)} {members : List (String × ConfigValue)}
    (h : List.Forall₂ Writes lines members) (hnodup : (members.map Prod.fst).Nodup) {es : Entries}
    {group : String} (hbare : isBare group = true) (hgroup : es.lookup group = none) (fuel : Nat)
    (header : List String) (rest : List Char) :
    lines? (fuel + lines.length + 1) header es (tableText group lines ++ rest)
      = lines? fuel [group] (es ++ [(group, .table (valueEntries members) .stated)]) rest := by
  have htext : tableText group lines ++ rest
      = '[' :: (group.toList ++ ']' :: '\n' :: (lines.flatMap (fun l => lineText l.1 l.2) ++ rest)) := by
    simp [tableText]
  rw [htext, lines?_header hbare, openTable_new hgroup, Option.bind_some]
  exact @lines?_lines lines members h es group hgroup [] hnodup fuel rest

/-- Line feeds before a header are skipped. -/
theorem lines?_newline_tableText (fuel : Nat) (header : List String) (es : Entries) (group : String)
    (lines : List (String × List Char)) (rest : List Char) :
    lines? (fuel + 1) header es ('\n' :: tableText group lines ++ rest)
      = lines? (fuel + 1) header es (tableText group lines ++ rest) := by
  have hskip (n : Nat) :
      skipLines n (tableText group lines ++ rest) = some (tableText group lines ++ rest) :=
    skipLines_bracket n _
  have hskip' (n : Nat) : skipLines (n + 1) ('\n' :: tableText group lines ++ rest)
      = some (tableText group lines ++ rest) := hskip n
  rw [lines?, lines?, hskip, hskip']

/-! ## Settings -/

/-- What the text of settings says. -/
def settingsValue (s : Settings) : ConfigValue :=
  .table
    [("detection", .table
        [("lexical", .bool s.detection.lexical), ("structural", .bool s.detection.structural),
          ("classifier", .bool s.detection.classifier), ("parallel", .bool s.detection.parallel)]),
      ("classifier", .table
        [("max_features", .int s.classifier.maxFeatures), ("epochs", .int s.classifier.epochs),
          ("learning_rate", .real s.classifier.learningRate), ("l2_penalty", .real s.classifier.l2Penalty),
          ("threshold", .real s.classifier.threshold), ("model_path", .str s.classifier.modelPath)]),
      ("storage", .table
        [("enabled", .bool s.storage.enabled), ("database_path", .str s.storage.databasePath)])]

/-- All real numbers among the settings are finite. -/
structure Finite (s : Settings) : Prop where
  learningRate : s.classifier.learningRate.isFinite = true
  l2Penalty : s.classifier.l2Penalty.isFinite = true
  threshold : s.classifier.threshold.isFinite = true

theorem read_bracket (rest : List Char) : read ('[' :: rest)
    = (lines? (('[' :: rest).length + 1) [] [] ('[' :: rest)).map fun es => .table (closeEntries es) := rfl

theorem length_tableText_le (group : String) (lines : List (String × List Char)) :
    lines.length + 1 ≤ (tableText group lines).length := by
  have hlines : lines.length ≤ (lines.flatMap fun l => lineText l.1 l.2).length := by
    induction lines with
    | nil => exact Nat.le_refl 0
    | cons l lines ih =>
      rw [List.flatMap_cons, List.length_append, List.length_cons, lineText]
      simp only [List.length_append, List.length_singleton]
      omega
  have htext : tableText group lines
      = '[' :: (group.toList ++ [']', '\n'] ++ lines.flatMap fun l => lineText l.1 l.2) := rfl
  rw [htext, List.length_cons, List.length_append]
  omega

/-- A document of three tables. -/
theorem read_tables {a b c : String} (hbare : isBare a = true ∧ isBare b = true ∧ isBare c = true)
    (hnames : [a, b, c].Nodup) {la lb lc : List (String × List Char)}
    {ma mb mc : List (String × ConfigValue)} (ha : List.Forall₂ Writes la ma)
    (hb : List.Forall₂ Writes lb mb) (hc : List.Forall₂ Writes lc mc)
    (hnodup : (ma.map Prod.fst).Nodup ∧ (mb.map Prod.fst).Nodup ∧ (mc.map Prod.fst).Nodup)
    {ending : List Char} (hending : ending = [] ∨ ending = ['\n']) :
    read (tableText a la ++ ('\n' :: tableText b lb ++ ('\n' :: tableText c lc ++ ending)))
      = some (.table [(a, .table ma), (b, .table mb), (c, .table mc)]) := by
  simp only [List.nodup_cons, List.mem_cons, List.not_mem_nil, or_false, not_or] at hnames
  obtain ⟨⟨hab, hac⟩, hbc, -⟩ := hnames
  -- one step for each header and line, and one for the end
  obtain ⟨fuel, hfuel⟩ : ∃ fuel, (tableText a la ++ ('\n' :: tableText b lb ++
      ('\n' :: tableText c lc ++ ending))).length + 1
        = fuel + 1 + lc.length + 1 + lb.length + 1 + la.length + 1 := by
    have hla := length_tableText_le a la
    have hlb := length_tableText_le b lb
    have hlc := length_tableText_le c lc
    simp only [List.length_append, List.length_cons]
    obtain ⟨fuel, hfuel⟩ := Nat.exists_eq_add_of_le (Nat.add_le_add hla (Nat.add_le_add hlb hlc))
    exact ⟨fuel + 2 + ending.length, by omega⟩
  have hend (header : List String) (es : Entries) : lines? (fuel + 1) header es ending = some es := by
    rcases hending with rfl | rfl <;> rfl
  have hb' : List.lookup b ([] ++ [(a, Item.table (valueEntries ma) .stated)]) = none := by
    simp [List.lookup_cons, beq_false_of_ne (Ne.symm hab)]
  have hc' : List.lookup c ([] ++ [(a, Item.table (valueEntries ma) .stated)] ++
      [(b, Item.table (valueEntries mb) .stated)]) = none := by
    simp [List.lookup_cons, beq_false_of_ne (Ne.symm hac), beq_false_of_ne (Ne.symm hbc)]
  refine (read_bracket _).trans ?_
  change Option.map _ (lines? ((tableText a la ++ _).length + 1) [] [] (tableText a la ++ _)) = _
  rw [hfuel, lines?_tableText ha hnodup.1 hbare.1 rfl, lines?_newline_tableText,
    lines?_tableText hb hnodup.2.1 hbare.2.1 hb', lines?_newline_tableText,
    lines?_tableText hc hnodup.2.2 hbare.2.2 hc', hend]
  simp [closeEntries, Item.close, closeEntries_valueEntries]

theorem writes {name : String} (hname : isBare name = true) {text : List Char} {v : ConfigValue}
    (h : Denotes text v) : Writes (name, text) (name, v) :=
  ⟨hname, rfl, h⟩

/-- The text of settings says each of them. -/
theorem read_settingsText {s : Settings} {text : List Char} (hs : Finite s)
    (h : settingsText? s = some text) {ending : List Char} (hending : ending = [] ∨ ending = ['\n']) :
    read (text ++ ending) = some (settingsValue s) := by
  simp only [settingsText?, Option.bind_eq_bind, Option.bind_eq_some_iff] at h
  obtain ⟨maxFeatures, hmax, epochs, hepochs, h⟩ := h
  cases h
  rw [List.append_assoc, List.append_assoc]
  refine read_tables (by decide) (by decide) ?_ ?_ ?_ (by simp) hending
  · exact .cons (writes (by decide) (denotes_boolText _)) (.cons (writes (by decide) (denotes_boolText _))
      (.cons (writes (by decide) (denotes_boolText _)) (.cons (writes (by decide) (denotes_boolText _)) .nil)))
  · exact .cons (writes (by decide) (denotes_integer hmax))
      (.cons (writes (by decide) (denotes_integer hepochs))
        (.cons (writes (by decide) (denotes_realText hs.learningRate))
          (.cons (writes (by decide) (denotes_realText hs.l2Penalty))
            (.cons (writes (by decide) (denotes_realText hs.threshold))
              (.cons (writes (by decide) (denotes_stringText _)) .nil)))))
  · exact .cons (writes (by decide) (denotes_boolText _))
      (.cons (writes (by decide) (denotes_stringText _)) .nil)

end DefectScan.Toml
