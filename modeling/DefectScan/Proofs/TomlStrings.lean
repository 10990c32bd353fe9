import DefectScan.Proofs.TomlText

/-!
# Strings in TOML

A string is read back from its text, whatever characters it has (`denotes_stringText`). In double
quotes each character is written by itself or by an escape that stands for it (`Escaped`), so the
reader takes one step for each. In single quotes all stand for themselves; what counts is that the
quotes that end the string are the first ones that could (`longestQuotes`).
-/

namespace DefectScan.Toml

open Decimal Json

/-! ## Double quotes -/

/-- How a character stands in double quotes. -/
inductive Escaped (multiline : Bool) (c : Char) : List Char → Prop
  | itself (hquote : c ≠ '"') (hslash : c ≠ '\\') (hcontrol : isControl c = false) :
      Escaped multiline c [c]
  | feed (hmultiline : multiline = true) (hc : c = '\n') : Escaped multiline c ['\n']
  /-- An escape is no backslash at the end of a line. -/
  | slash {d : Char} {more : List Char} (hspace : isSpace d = false) (hfeed : d ≠ '\n')
      (hreturn : d ≠ '\r') (h : ∀ rest, escape? (d :: (more ++ rest)) = some (c, rest)) :
      Escaped multiline c ('\\' :: d :: more)

theorem radixValue?_hexText : ∀ n : Fin 128,
    (hexText hexWidth n).length = 4 ∧ radixValue? 16 (hexText hexWidth n) 0 = some n.val := by
  decide

theorem escape?_hexText {c : Char} (h : c.toNat < 128) (rest : List Char) :
    escape? ('u' :: (hexText hexWidth c.toNat ++ rest)) = some (c, rest) := by
  obtain ⟨hlength, hvalue⟩ := radixValue?_hexText ⟨c.toNat, h⟩
  simp only at hlength hvalue
  have hvalid : c.toNat.isValidChar := c.valid
  have htake : (hexText hexWidth c.toNat ++ rest).take 4 = hexText hexWidth c.toNat := by
    rw [← hlength, List.take_left]
  have hdrop : (hexText hexWidth c.toNat ++ rest).drop 4 = rest := by
    rw [← hlength, List.drop_left]
  rw [escape?, htake, hdrop, hvalue]
  simp [charOf?, hvalid, hlength, Char.ofNat_toNat]

theorem escaped_short {multiline : Bool} {c d : Char} (h : shortEscape? d = some c) :
    Escaped multiline c ['\\', d] := by
  have hshort : ∀ rest, escape? (d :: ([] ++ rest)) = some (c, rest) := by
    intro rest
    unfold escape?
    split
    · next heq =>
      rw [(List.cons.inj heq).1] at h
      cases h
    · next heq =>
      rw [(List.cons.inj heq).1] at h
      cases h
    · next heq =>
      obtain ⟨rfl, rfl⟩ := List.cons.inj heq
      rw [h]
      rfl
    · next heq => cases heq
  have hne {x : Char} (hx : shortEscape? x = none) : d ≠ x := by
    rintro rfl
    rw [h] at hx
    cases hx
  exact .slash (isSpace_of_ne (hne rfl) (hne rfl)) (hne rfl) (hne rfl) hshort

theorem escaped_escape (multiline : Bool) (c : Char) : Escaped multiline c (escape multiline c) := by
  unfold escape
  split_ifs with hback htab hfeed hmultiline hform hreturn hquote hslash hcontrol
  · exact escaped_short (by rw [hback]; rfl)
  · exact escaped_short (by rw [htab]; rfl)
  · exact .feed hmultiline hfeed
  · exact escaped_short (by rw [hfeed]; rfl)
  · exact escaped_short (by rw [hform]; rfl)
  · exact escaped_short (by rw [hreturn]; rfl)
  · exact escaped_short (by rw [hquote]; rfl)
  · exact escaped_short (by rw [hslash]; rfl)
  · have hsmall : c.toNat < 128 := by
      simp only [Bool.or_eq_true, decide_eq_true_eq] at hcontrol
      omega
    exact .slash (by decide) (by decide) (by decide) fun rest => escape?_hexText hsmall rest
  · refine .itself hquote hslash ?_
    simp only [Bool.or_eq_true, decide_eq_true_eq, not_or] at hcontrol
    simp [isControl, hcontrol.1, hcontrol.2]

section
variable {c : Char} {written : List Char}

/-- The reader of a string on one line takes one step for each character. -/
theorem basic?_of_escaped (h : Escaped false c written) (fuel : Nat) (text : List Char) :
    basic? (fuel + 1) (written ++ text) = (basic? fuel text).map (cons c) := by
  cases h with
  | itself hquote hslash hcontrol =>
    rw [List.singleton_append, basic?]
    · rw [hcontrol]
      rfl
    · exact hquote
    · exact hslash
  | feed hmultiline => cases hmultiline
  | slash _ _ _ h =>
    rw [List.cons_append, basic?, List.cons_append, h text]
    simp only [Option.bind_eq_bind, Option.bind_some]
    cases basic? fuel text <;> rfl

theorem closing?_of_ne {q : Char} (h : c ≠ q) (text : List Char) : closing? q (c :: text) = none := by
  have hquotes : quotes q (c :: text) = 0 := by simp [quotes, h]
  rw [closing?, hquotes]
  rfl

theorem newline?_of_ne (hfeed : c ≠ '\n') (hreturn : c ≠ '\r') (text : List Char) :
    newline? (c :: text) = none := by
  rw [newline?]
  · exact fun rest heq => hfeed (List.cons.inj heq).1
  · exact fun rest heq => hreturn (List.cons.inj heq).1

theorem ne_of_not_isControl (h : isControl c = false) : c ≠ '\n' ∧ c ≠ '\r' := by
  constructor <;> rintro rfl <;> exact absurd h (by decide)

/-- So does the reader of a string over several lines. -/
theorem multiBasic?_of_escaped (h : Escaped true c written) (fuel : Nat) (text : List Char) :
    multiBasic? (fuel + 1) (written ++ text) = (multiBasic? fuel text).map (cons c) := by
  cases h with
  | itself hquote hslash hcontrol =>
    obtain ⟨hfeed, hreturn⟩ := ne_of_not_isControl hcontrol
    rw [List.singleton_append, multiBasic?, closing?_of_ne hquote, newline?_of_ne hfeed hreturn]
    · simp only [hcontrol]
      rfl
    · exact hslash
  | feed _ hc =>
    subst hc
    rw [List.singleton_append, multiBasic?, closing?_of_ne (by decide), newline?]
    decide
  | @slash d more hspace hfeed hreturn h =>
    rw [List.cons_append, multiBasic?, closing?_of_ne (by decide), newline?_of_ne (by decide) (by decide),
      List.cons_append]
    have hcontinuation : continuation? (d :: (more ++ text)) = none := by
      rw [continuation?, List.dropWhile_cons_of_neg (by simp [hspace]), newline?_of_ne hfeed hreturn]
      rfl
    simp only [hcontinuation, h text, Option.bind_eq_bind, Option.bind_some]
    cases multiBasic? fuel text <;> rfl

end

theorem basic?_flatMap (cs rest : List Char) {fuel : Nat} (h : cs.length < fuel) :
    basic? fuel (cs.flatMap (escape false) ++ '"' :: rest) = some (cs, rest) := by
  induction cs generalizing fuel with
  | nil =>
    obtain ⟨fuel, rfl⟩ := Nat.exists_eq_add_of_lt h
    rfl
  | cons c cs ih =>
    rw [List.length_cons] at h
    obtain ⟨fuel, rfl⟩ := Nat.exists_eq_add_of_lt h
    rw [List.flatMap_cons, List.append_assoc, basic?_of_escaped (escaped_escape false c),
      ih (by omega)]
    rfl

/-- Three quotes before the end of a line are the end of a string. -/
theorem closing?_three (q : Char) (hq : q ≠ '\n') (rest : List Char) :
    closing? q (q :: q :: q :: '\n' :: rest) = some ([], '\n' :: rest) := by
  have hquotes : quotes q (q :: q :: q :: '\n' :: rest) = 3 := by simp [quotes, hq.symm]
  rw [closing?, hquotes]
  rfl

theorem multiBasic?_flatMap (cs rest : List Char) {fuel : Nat} (h : cs.length < fuel) :
    multiBasic? fuel (cs.flatMap (escape true) ++ '"' :: '"' :: '"' :: '\n' :: rest)
      = some (cs, '\n' :: rest) := by
  induction cs generalizing fuel with
  | nil =>
    obtain ⟨fuel, rfl⟩ := Nat.exists_eq_add_of_lt h
    rw [List.flatMap_nil, List.nil_append, multiBasic?, closing?_three '"' (by decide)]
    decide
  | cons c cs ih =>
    rw [List.length_cons] at h
    obtain ⟨fuel, rfl⟩ := Nat.exists_eq_add_of_lt h
    rw [List.flatMap_cons, List.append_assoc, multiBasic?_of_escaped (escaped_escape true c),
      ih (by omega)]
    rfl

/-! ## Single quotes -/

theorem literal?_append {cs : List Char} (h : ∀ c ∈ cs, c ≠ '\x27' ∧ isControl c = false)
    (rest : List Char) : literal? (cs ++ '\x27' :: rest) = some (cs, rest) := by
  induction cs with
  | nil => rfl
  | cons c cs ih =>
    obtain ⟨⟨hquote, hcontrol⟩, hcs⟩ := List.forall_mem_cons.mp h
    rw [List.cons_append, literal?, if_neg hquote, hcontrol, ih hcs]
    rfl

theorem longestQuotes_mono (cs : List Char) {run run' : Nat} (h : run ≤ run') :
    longestQuotes cs run ≤ longestQuotes cs run' := by
  induction cs generalizing run run' with
  | nil => exact h
  | cons c cs ih =>
    rw [longestQuotes, longestQuotes]
    split
    · exact ih (Nat.succ_le_succ h)
    · exact max_le_max_right _ h

/-- The quotes at the start of a string are a run. -/
theorem add_quotes_le (cs : List Char) (run : Nat) : run + quotes '\x27' cs ≤ longestQuotes cs run := by
  induction cs generalizing run with
  | nil => exact Nat.le_refl run
  | cons c cs ih =>
    rw [longestQuotes, quotes]
    split
    · next hc =>
      rw [List.takeWhile_cons_of_pos (by simpa using hc), List.length_cons]
      have hrun := ih (run + 1)
      rw [quotes] at hrun
      omega
    · next hc =>
      rw [List.takeWhile_cons_of_neg (by simpa using hc)]
      exact le_max_left _ _

theorem longestQuotes_tail (c : Char) (cs : List Char) : longestQuotes cs 0 ≤ longestQuotes (c :: cs) 0 := by
  rw [longestQuotes]
  split
  · exact longestQuotes_mono cs (Nat.zero_le 1)
  · exact le_max_right _ _

/-- A string can stand in three single quotes as it is. -/
structure Unquoted (cs : List Char) : Prop where
  chars : ∀ c ∈ cs, isControl c = false ∨ c = '\n'
  quotes : longestQuotes cs 0 < 3
  last : cs.getLast? ≠ some '\x27'

theorem Unquoted.tail {c : Char} {cs : List Char} (h : Unquoted (c :: cs)) : Unquoted cs := by
  refine ⟨(List.forall_mem_cons.mp h.chars).2, (longestQuotes_tail c cs).trans_lt h.quotes, ?_⟩
  cases cs with
  | nil => simp
  | cons d cs => simpa using h.last

/-- Quotes in the string do not end it. -/
theorem Unquoted.closing? {c : Char} {cs : List Char} (h : Unquoted (c :: cs)) (rest : List Char) :
    Toml.closing? '\x27' (c :: (cs ++ rest)) = none := by
  have hsome : ¬ ((c :: cs).takeWhile (· = '\x27')).length = (c :: cs).length := by
    intro hlength
    have hall := (List.takeWhile_prefix _).eq_of_length hlength
    obtain ⟨last, hlast⟩ := Option.isSome_iff_exists.mp (List.getLast?_isSome.mpr (List.cons_ne_nil c cs))
    have hquote := List.mem_takeWhile_imp (hall ▸ List.mem_of_getLast? hlast)
    exact h.last (hlast.trans (congrArg some (of_decide_eq_true hquote)))
  have hquotes : Toml.quotes '\x27' (c :: (cs ++ rest)) = Toml.quotes '\x27' (c :: cs) := by
    rw [Toml.quotes, ← List.cons_append, List.takeWhile_append, if_neg hsome, Toml.quotes]
  have hrun := add_quotes_le (c :: cs) 0
  have hthree := h.quotes
  rw [Toml.closing?, hquotes, if_pos (by omega)]

theorem multiLiteral?_append {cs : List Char} (h : Unquoted cs) (rest : List Char) {fuel : Nat}
    (hfuel : cs.length < fuel) :
    multiLiteral? fuel (cs ++ '\x27' :: '\x27' :: '\x27' :: '\n' :: rest) = some (cs, '\n' :: rest) := by
  induction cs generalizing fuel with
  | nil =>
    obtain ⟨fuel, rfl⟩ := Nat.exists_eq_add_of_lt hfuel
    rw [List.nil_append, multiLiteral?, closing?_three '\x27' (by decide)]
  | cons c cs ih =>
    rw [List.length_cons] at hfuel
    obtain ⟨fuel, rfl⟩ := Nat.exists_eq_add_of_lt hfuel
    have hrest : multiLiteral? (cs.length + 1 + fuel) (cs ++ '\x27' :: '\x27' :: '\x27' :: '\n' :: rest)
        = some (cs, '\n' :: rest) := ih h.tail (by omega)
    rw [List.cons_append, multiLiteral?, h.closing?]
    rcases h.chars c List.mem_cons_self with hcontrol | rfl
    · obtain ⟨hfeed, hreturn⟩ := ne_of_not_isControl hcontrol
      simp only [newline?_of_ne hfeed hreturn, hcontrol, Bool.false_eq_true, if_false, hrest]
      rfl
    · simp only [newline?, hrest]
      rfl

/-! ## Any string -/

theorem unquoted_of_isLiteral {cs : List Char} (h : isLiteral cs = true) : Unquoted cs ∧ cs ≠ [] := by
  simp only [isLiteral, Bool.and_eq_true, Bool.or_eq_true, decide_eq_true_eq, List.all_eq_true] at h
  obtain ⟨⟨⟨hquoted, hchars⟩, hquotes⟩, hlast⟩ := h
  refine ⟨⟨fun c hc => ?_, hquotes, hlast⟩, ?_⟩
  · rcases hchars c hc with (⟨hlow, hdelete⟩ | rfl) | rfl
    · left
      simp only [isControl, Bool.or_eq_false_iff, Bool.and_eq_false_iff, decide_eq_false_iff_not]
      exact ⟨.inl (by omega), hdelete⟩
    · exact .inl (by decide)
    · exact .inr rfl
  · rintro rfl
    simp at hquoted

/-- No string in double quotes starts with a quote of its own. -/
theorem flatMap_escape_ne (cs rest rest' : List Char) :
    cs.flatMap (escape false) ++ '"' :: '\n' :: rest ≠ '"' :: '"' :: rest' := by
  cases cs with
  | nil => simp
  | cons c cs =>
    rw [List.flatMap_cons, List.append_assoc]
    have hescaped := escaped_escape false c
    generalize escape false c = written at hescaped
    cases hescaped with
    | itself hquote => exact fun heq => hquote (List.cons.inj heq).1
    | feed hmultiline => cases hmultiline
    | slash => exact fun heq => absurd (List.cons.inj heq).1 (by decide)

theorem length_le_flatMap (multiline : Bool) (cs : List Char) :
    cs.length ≤ (cs.flatMap (escape multiline)).length := by
  induction cs with
  | nil => exact Nat.le_refl 0
  | cons c cs ih =>
    have hescaped := escaped_escape multiline c
    have hpos : 0 < (escape multiline c).length := by
      generalize escape multiline c = written at hescaped
      cases hescaped <;> simp
    rw [List.flatMap_cons, List.length_append, List.length_cons]
    omega

theorem Unquoted.not_isControl {cs : List Char} (h : Unquoted cs) (hfeed : '\n' ∉ cs) :
    ∀ c ∈ cs, isControl c = false :=
  fun c hc => (h.chars c hc).resolve_right fun heq => hfeed (heq ▸ hc)

theorem dropNewline_append {cs : List Char} (hne : cs ≠ []) (h : ∀ c ∈ cs, isControl c = false)
    (rest : List Char) : dropNewline (cs ++ rest) = cs ++ rest := by
  cases cs with
  | nil => exact absurd rfl hne
  | cons c cs =>
    obtain ⟨hfeed, hreturn⟩ := ne_of_not_isControl (h c List.mem_cons_self)
    rw [dropNewline, List.cons_append, newline?_of_ne hfeed hreturn]
    rfl

theorem string?_basic (cs rest : List Char) :
    string? ('"' :: (cs.flatMap (escape false) ++ '"' :: '\n' :: rest)) = some (cs, '\n' :: rest) := by
  rw [string?]
  · refine basic?_flatMap cs _ (Nat.lt_succ_of_le ?_)
    rw [List.length_append]
    exact Nat.le_add_right_of_le (length_le_flatMap false cs)
  · exact fun rest' => flatMap_escape_ne cs rest rest'

theorem string?_multiBasic (cs rest : List Char) :
    string? ('"' :: '"' :: '"' :: '\n' :: (cs.flatMap (escape true) ++ '"' :: '"' :: '"' :: '\n' :: rest))
      = some (cs, '\n' :: rest) := by
  have hdrop : dropNewline ('\n' :: (cs.flatMap (escape true) ++ '"' :: '"' :: '"' :: '\n' :: rest))
      = cs.flatMap (escape true) ++ '"' :: '"' :: '"' :: '\n' :: rest := rfl
  rw [string?, hdrop]
  refine multiBasic?_flatMap cs rest (Nat.lt_succ_of_le ?_)
  rw [List.length_cons, List.length_append]
  exact Nat.le_add_right_of_le (Nat.le_add_right_of_le (length_le_flatMap true cs))

theorem string?_literal {cs : List Char} (hne : cs ≠ [])
    (h : ∀ c ∈ cs, c ≠ '\x27' ∧ isControl c = false) (rest : List Char) :
    string? ('\x27' :: (cs ++ '\x27' :: '\n' :: rest)) = some (cs, '\n' :: rest) := by
  rw [string?]
  · exact literal?_append h _
  · intro rest' heq
    cases cs with
    | nil => exact hne rfl
    | cons c cs => exact (h c List.mem_cons_self).1 (List.cons.inj heq).1

/-- Three quotes with a string behind them, or behind a line feed that is dropped. -/
theorem string?_multiLiteral {cs more : List Char} (h : Unquoted cs) (rest : List Char)
    (hmore : dropNewline more = cs ++ '\x27' :: '\x27' :: '\x27' :: '\n' :: rest)
    (hlength : cs.length ≤ more.length) :
    string? ('\x27' :: '\x27' :: '\x27' :: more) = some (cs, '\n' :: rest) := by
  rw [string?, hmore]
  exact multiLiteral?_append h rest (Nat.lt_succ_of_le hlength)

theorem string?_stringText (s : String) (rest : List Char) :
    string? (stringText s ++ '\n' :: rest) = some (s.toList, '\n' :: rest) := by
  have hopen : "'''\n".toList = ['\x27', '\x27', '\x27', '\n'] := rfl
  have hsingle : "'''".toList = ['\x27', '\x27', '\x27'] := rfl
  have hopen' : "\"\"\"\n".toList = ['"', '"', '"', '\n'] := rfl
  have hdouble : "\"\"\"".toList = ['"', '"', '"'] := rfl
  unfold stringText
  generalize s.toList = cs
  simp only [hopen, hsingle, hopen', hdouble]
  by_cases hliteral : isLiteral cs = true
  · obtain ⟨hunquoted, hne⟩ := unquoted_of_isLiteral hliteral
    rw [if_pos hliteral]
    split_ifs with hfeed hquote
    all_goals simp only [List.append_assoc, List.cons_append, List.nil_append]
    · refine string?_multiLiteral hunquoted rest rfl ?_
      rw [List.length_cons, List.length_append]
      omega
    · refine string?_multiLiteral hunquoted rest (dropNewline_append hne ?_ _)
        (by rw [List.length_append]; omega)
      exact hunquoted.not_isControl (by simpa using hfeed)
    · refine string?_literal hne (fun c hc => ⟨?_, ?_⟩) rest
      · rintro rfl
        exact hquote (List.contains_iff_mem.mpr hc)
      · exact hunquoted.not_isControl (by simpa using hfeed) c hc
  · rw [if_neg hliteral]
    split_ifs with hfeed
    · simp only [hfeed, List.append_assoc, List.cons_append, List.nil_append]
      exact string?_multiBasic cs rest
    · rw [Bool.not_eq_true] at hfeed
      simp only [hfeed, List.append_assoc, List.cons_append, List.nil_append]
      exact string?_basic cs rest

/-- A string is read as it is, whatever it holds. -/
theorem denotes_stringText (s : String) : Denotes (stringText s) (.str s) := by
  have hquote : ∃ q text, stringText s = q :: text ∧ (q = '"' ∨ q = '\x27') := by
    unfold stringText
    dsimp only
    split_ifs
    · exact ⟨_, _, rfl, .inr rfl⟩
    · exact ⟨_, _, rfl, .inr rfl⟩
    · exact ⟨_, _, rfl, .inr rfl⟩
    · exact ⟨_, _, rfl, .inl rfl⟩
    · exact ⟨_, _, rfl, .inl rfl⟩
  obtain ⟨q, text, htext, hq⟩ := hquote
  refine ⟨fun c hc => ?_, fun fuel rest => ?_⟩
  · rw [htext] at hc
    cases hc
    rcases hq with rfl | rfl <;> decide
  · have hstring := string?_stringText s rest
    rw [htext, List.cons_append] at hstring ⊢
    rw [value?, if_pos (by rcases hq with rfl | rfl <;> decide), hstring]
    · simp only [Option.map_some, String.ofList_toList]
    all_goals rcases hq with rfl | rfl <;> decide

end DefectScan.Toml
