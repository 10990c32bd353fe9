import DefectScan.Json.Decode
import DefectScan.Proofs.NumberText

/-!
# Written JSON is read back

A value is read back from its text, whatever layout it is written in: blanks between the parts do not
matter (`Layout`), and neither does what stands behind the text (`Ends`). The document that is read is
`docOf j`, and

    readValue fuel (writeWith l depth j ++ rest) = (docOf j, some rest)

with as much fuel as a whole text is given (`readValue_writeWith`). Arrays and objects are read item
by item, so the statement is proved together with the one for the items behind the first.
-/

namespace DefectScan.Json

open Decimal

/-! ## Strings -/

theorem hexValue_hexDigit : ∀ n : Fin 16, hexValue (hexDigit n) = some n.val := by
  decide

theorem shorterThan_hexDigits (a b : Fin 16) (text : List Char) :
    shorterThan 4 ('0' :: '0' :: hexDigit a :: hexDigit b :: text) = false := by
  have hone : ∀ n : Fin 16, (hexDigit n).utf8Size = 1 := by decide
  simp only [shorterThan, hone, show '0'.utf8Size = 1 by decide, Nat.add_sub_cancel]

theorem unitOf_control {c : Char} (hc : c.toNat < 0x20) : unitOf c.toNat = .char c := by
  have hlead : ¬ (decide (0xD800 ≤ c.toNat) && decide (c.toNat < 0xDC00)) = true := by
    simp only [Bool.and_eq_true, decide_eq_true_eq]
    omega
  have htrail : ¬ (decide (0xDC00 ≤ c.toNat) && decide (c.toNat < 0xE000)) = true := by
    simp only [Bool.and_eq_true, decide_eq_true_eq]
    omega
  rw [unitOf, if_neg hlead, if_neg htrail, Char.ofNat_toNat]

theorem readUnit_control {n : ℕ} (hn : n < 0x20) (text : List Char) :
    readUnit ('0' :: '0' :: hexDigit (n / 16) :: hexDigit (n % 16) :: text) = .ok (n, text) := by
  have hhigh : n / 16 < 16 := by omega
  have hlow : n % 16 < 16 := by omega
  have hshort := shorterThan_hexDigits ⟨_, hhigh⟩ ⟨_, hlow⟩ text
  have hvalue₁ := hexValue_hexDigit ⟨_, hhigh⟩
  have hvalue₂ := hexValue_hexDigit ⟨_, hlow⟩
  have hzero : hexValue '0' = some 0 := by decide
  have hnat : ((0 * 16 + 0) * 16 + n / 16) * 16 + n % 16 = n := by omega
  unfold readUnit
  simp only at hshort hvalue₁ hvalue₂
  rw [if_neg (by rw [hshort]; exact Bool.false_ne_true)]
  simp only [hzero, hvalue₁, hvalue₂, hnat]

/-- A character is read back from its escape. -/
theorem readUnits_escape (c : Char) (fuel : ℕ) (text : List Char) :
    readUnits (fuel + 1) (escape c ++ text)
      = (.char c :: (readUnits fuel text).1, (readUnits fuel text).2) := by
  unfold escape
  split_ifs with h₁ h₂ h₃ h₄ h₅ h₆ h₇ hcontrol
  · rw [h₁]; rfl
  · rw [h₂]; rfl
  · rw [h₃]; rfl
  · rw [h₄]; rfl
  · rw [h₅]; rfl
  · rw [h₆]; rfl
  · rw [h₇]; rfl
  · have hescape : readEscape
        ('u' :: '0' :: '0' :: hexDigit (c.toNat / 16) :: hexDigit (c.toNat % 16) :: text)
        = .ok (.char c, text) := by
      rw [← unitOf_control hcontrol]
      exact congrArg (fun r => r >>= fun p => pure (unitOf p.1, p.2)) (readUnit_control hcontrol text)
    simp only [List.cons_append, List.nil_append, readUnits, hescape]
    rfl
  · simp only [List.singleton_append, readUnits, h₁, h₂, hcontrol, if_false]

theorem readUnits_flatMap (cs : List Char) {fuel : ℕ} (hfuel : cs.length < fuel) (rest : List Char) :
    readUnits fuel (cs.flatMap escape ++ '"' :: rest) = (cs.map .char, .ok rest) := by
  induction cs generalizing fuel with
  | nil =>
    obtain ⟨fuel, rfl⟩ := Nat.exists_eq_add_of_lt hfuel
    rfl
  | cons c cs ih =>
    obtain ⟨fuel, rfl⟩ : ∃ n, fuel = n + 1 := ⟨fuel - 1, by omega⟩
    rw [List.flatMap_cons, List.append_assoc, readUnits_escape, ih (by simpa using hfuel)]
    rfl

theorem joinUnits_map_char (cs : List Char) : joinUnits (cs.map .char) = some cs := by
  induction cs with
  | nil => rfl
  | cons c cs ih => rw [List.map_cons, joinUnits, ih, Option.map_some]

theorem length_le_length_flatMap_escape (cs : List Char) :
    cs.length ≤ (cs.flatMap escape).length := by
  induction cs with
  | nil => simp
  | cons c cs ih =>
    have hpos : 0 < (escape c).length := by
      unfold escape
      split_ifs <;> simp
    rw [List.flatMap_cons, List.length_append, List.length_cons]
    omega

/-- A string is read back behind its opening quote. -/
theorem readString_quoted (s : String) (rest : List Char) :
    readString (s.toList.flatMap escape ++ '"' :: rest) = .ok (some s, rest) := by
  have hlength := length_le_length_flatMap_escape s.toList
  unfold readString
  rw [readUnits_flatMap s.toList (by simp only [List.length_append]; omega) rest]
  simp only [joinUnits_map_char, Option.map_some, String.ofList_toList]

/-! ## Documents and layouts -/

mutual
/-- The document that the text of a value is read as. -/
def docOf : Json → Doc
  | .null => .null
  | .bool b => .bool b
  | .int n => .num ⟨n < 0, ⟨n.natAbs, 0⟩, true⟩
  | .real x => if x.isFinite then .num ⟨isNegative x, decimalOf x, false⟩ else .null
  | .str s => .str (some s)
  | .arr items => .arr (docsOf items) none
  | .obj members => .obj (memberDocsOf members) none

def docsOf : List Json → List Doc
  | [] => []
  | x :: xs => docOf x :: docsOf xs

def memberDocsOf : List (String × Json) → List (Option String × Doc)
  | [] => []
  | (k, x) :: xs => (some k, docOf x) :: memberDocsOf xs
end

theorem docsOf_eq_map (items : List Json) : docsOf items = items.map docOf := by
  induction items with
  | nil => rfl
  | cons x xs ih => rw [docsOf, ih, List.map_cons]

/-- The blanks of a text: before each item at a depth and before the end of its array or object, and
behind colons. -/
structure Layout where
  line : Nat → List Char
  gap : List Char
  line_blank : ∀ depth, ∀ c ∈ line depth, isBlank c = true
  gap_blank : ∀ c ∈ gap, isBlank c = true

mutual
/-- The text of a value in a layout. -/
def writeWith (l : Layout) (depth : Nat) : Json → List Char
  | .null => "null".toList
  | .bool b => (if b then "true" else "false").toList
  | .int n => (toString n).toList
  | .real x => realText x
  | .str s => quote s
  | .arr [] => ['[', ']']
  | .arr (x :: xs) =>
    '[' :: (l.line (depth + 1) ++ (writeWith l (depth + 1) x ++ (itemsBehind l (depth + 1) xs
      ++ (l.line depth ++ [']']))))
  | .obj [] => ['\x7b', '\x7d']
  | .obj ((k, x) :: xs) =>
    '\x7b' :: (l.line (depth + 1) ++ (quote k ++ ':' :: (l.gap ++ (writeWith l (depth + 1) x
      ++ (membersBehind l (depth + 1) xs ++ (l.line depth ++ ['\x7d']))))))

/-- The items behind the first one. -/
def itemsBehind (l : Layout) (depth : Nat) : List Json → List Char
  | [] => []
  | x :: xs => ',' :: (l.line depth ++ (writeWith l depth x ++ itemsBehind l depth xs))

/-- The members behind the first one. -/
def membersBehind (l : Layout) (depth : Nat) : List (String × Json) → List Char
  | [] => []
  | (k, x) :: xs =>
    ',' :: (l.line depth ++ (quote k ++ ':' :: (l.gap ++ (writeWith l depth x
      ++ membersBehind l depth xs))))
end

/-- One item on each line. -/
def Layout.inLines : Layout where
  line := lineAt
  gap := [' ']
  line_blank := by
    intro depth c hc
    rcases List.mem_cons.mp hc with rfl | hc
    · decide
    · rw [List.eq_of_mem_replicate hc]
      decide
  gap_blank := by
    intro c hc
    rw [List.mem_singleton.mp hc]
    decide

/-- No blanks. -/
def Layout.tight : Layout where
  line _ := []
  gap := []
  line_blank := nofun
  gap_blank := nofun

mutual
theorem writePretty_eq : ∀ (j : Json) (depth : Nat), writePretty depth j = writeWith .inLines depth j
  | .null, _ => rfl
  | .bool _, _ => rfl
  | .int _, _ => rfl
  | .real _, _ => rfl
  | .str _, _ => rfl
  | .arr [], _ => rfl
  | .arr (x :: xs), depth => by
    have hitems := writePrettyItems_eq (x :: xs) (depth + 1) (List.cons_ne_nil _ _)
    rw [itemsBehind, List.cons.injEq] at hitems
    rw [writePretty, writeWith, hitems.2]
    simp only [Layout.inLines, List.append_assoc]
  | .obj [], _ => rfl
  | .obj ((k, x) :: xs), depth => by
    have hmembers := writePrettyMembers_eq ((k, x) :: xs) (depth + 1) (List.cons_ne_nil _ _)
    rw [membersBehind, List.cons.injEq] at hmembers
    rw [writePretty, writeWith, hmembers.2]
    simp only [Layout.inLines, List.append_assoc, List.cons_append]

theorem writePrettyItems_eq : ∀ (items : List Json) (depth : Nat), items ≠ [] →
    ',' :: writePrettyItems depth items = itemsBehind .inLines depth items
  | [], _, h => absurd rfl h
  | [x], depth, _ => by
    rw [writePrettyItems, writePretty_eq x, itemsBehind, itemsBehind, List.append_nil]
    rfl
  | x :: y :: ys, depth, _ => by
    rw [writePrettyItems, writePretty_eq x, writePrettyItems_eq (y :: ys) depth (List.cons_ne_nil _ _),
      itemsBehind, List.append_assoc]
    · rfl
    · exact List.cons_ne_nil _ _

theorem writePrettyMembers_eq : ∀ (members : List (String × Json)) (depth : Nat), members ≠ [] →
    ',' :: writePrettyMembers depth members = membersBehind .inLines depth members
  | [], _, h => absurd rfl h
  | [(k, x)], depth, _ => by
    rw [writePrettyMembers, writePretty_eq x, membersBehind, membersBehind, List.append_nil,
      List.append_assoc]
    rfl
  | (k, x) :: y :: ys, depth, _ => by
    rw [writePrettyMembers, writePretty_eq x,
      writePrettyMembers_eq (y :: ys) depth (List.cons_ne_nil _ _), membersBehind, List.append_assoc]
    · rfl
    · exact List.cons_ne_nil _ _
end

mutual
theorem writeCompact_eq : ∀ (j : Json) (depth : Nat), writeCompact j = writeWith .tight depth j
  | .null, _ => rfl
  | .bool _, _ => rfl
  | .int _, _ => rfl
  | .real _, _ => rfl
  | .str _, _ => rfl
  | .arr [], _ => rfl
  | .arr (x :: xs), depth => by
    have hitems := writeItems_eq (x :: xs) (depth + 1) (List.cons_ne_nil _ _)
    rw [itemsBehind, List.cons.injEq] at hitems
    rw [writeCompact, writeWith, hitems.2]
    simp only [Layout.tight, List.append_assoc, List.nil_append]
  | .obj [], _ => rfl
  | .obj ((k, x) :: xs), depth => by
    have hmembers := writeMembers_eq ((k, x) :: xs) (depth + 1) (List.cons_ne_nil _ _)
    rw [membersBehind, List.cons.injEq] at hmembers
    rw [writeCompact, writeWith, hmembers.2]
    simp only [Layout.tight, List.append_assoc, List.cons_append, List.nil_append]

theorem writeItems_eq : ∀ (items : List Json) (depth : Nat), items ≠ [] →
    ',' :: writeItems items = itemsBehind .tight depth items
  | [], _, h => absurd rfl h
  | [x], depth, _ => by
    rw [writeItems, writeCompact_eq x depth, itemsBehind, itemsBehind, List.append_nil]
    rfl
  | x :: y :: ys, depth, _ => by
    rw [writeItems, writeCompact_eq x depth, writeItems_eq (y :: ys) depth (List.cons_ne_nil _ _),
      itemsBehind]
    · rfl
    · exact List.cons_ne_nil _ _

theorem writeMembers_eq : ∀ (members : List (String × Json)) (depth : Nat), members ≠ [] →
    ',' :: writeMembers members = membersBehind .tight depth members
  | [], _, h => absurd rfl h
  | [(k, x)], depth, _ => by
    rw [writeMembers, writeCompact_eq x depth, membersBehind, membersBehind, List.append_nil]
    rfl
  | (k, x) :: y :: ys, depth, _ => by
    rw [writeMembers, writeCompact_eq x depth,
      writeMembers_eq (y :: ys) depth (List.cons_ne_nil _ _), membersBehind]
    · rfl
    · exact List.cons_ne_nil _ _
end

/-! ## Reading -/

theorem skipBlanks_append {blanks : List Char} (h : ∀ c ∈ blanks, isBlank c = true)
    (text : List Char) : skipBlanks (blanks ++ text) = skipBlanks text :=
  List.dropWhile_append_of_pos h

theorem skipBlanks_cons {c : Char} (h : isBlank c = false) (text : List Char) :
    skipBlanks (c :: text) = c :: text := by
  rw [skipBlanks, List.dropWhile_cons, if_neg (by rw [h]; exact Bool.false_ne_true)]

/-- What stands between two items or at their end ends a number. -/
theorem ends_append {blanks : List Char} (h : ∀ c ∈ blanks, isBlank c = true) {c : Char}
    (hc : c = ',' ∨ c = ']' ∨ c = '\x7d') (rest : List Char) : Ends (blanks ++ c :: rest) := by
  intro b hb
  cases blanks with
  | nil =>
    cases hb
    rcases hc with rfl | rfl | rfl <;> decide
  | cons d blanks =>
    cases hb
    have hblank := h b List.mem_cons_self
    simp only [isBlank, Bool.or_eq_true, decide_eq_true_eq] at hblank
    rcases hblank with ((rfl | rfl) | rfl) | rfl <;> decide

/-- The first character of a number is not that of another value. -/
theorem ne_of_number {c : Char} (h : c = '-' ∨ isDigit c = true) :
    isBlank c = false ∧ c ≠ ']' ∧ c ≠ '[' ∧ c ≠ '\x7b' ∧ c ≠ '"' := by
  have hne : ∀ b : Char, b ≠ '-' → isDigit b = false → c ≠ b := by
    rintro b hminus hdigit rfl
    rcases h with h | h
    · exact hminus h
    · exact absurd h (by rw [hdigit]; exact Bool.false_ne_true)
  refine ⟨?_, hne _ (by decide) (by decide), hne _ (by decide) (by decide),
    hne _ (by decide) (by decide), hne _ (by decide) (by decide)⟩
  simp only [isBlank, Bool.or_eq_false_iff, decide_eq_false_iff_not]
  exact ⟨⟨⟨hne _ (by decide) (by decide), hne _ (by decide) (by decide)⟩,
    hne _ (by decide) (by decide)⟩, hne _ (by decide) (by decide)⟩

/-- A value starts with a character that is neither a blank nor the end of an array. -/
theorem exists_head_writeWith (l : Layout) (depth : Nat) (j : Json) :
    ∃ c text, writeWith l depth j = c :: text ∧ isBlank c = false ∧ c ≠ ']' := by
  cases j with
  | null => exact ⟨'n', _, rfl, by decide, by decide⟩
  | bool b =>
    cases b with
    | true => exact ⟨'t', _, rfl, by decide, by decide⟩
    | false => exact ⟨'f', _, rfl, by decide, by decide⟩
  | int n =>
    obtain ⟨c, text, htext, hc⟩ := exists_head_int n
    exact ⟨c, text, by rw [writeWith, htext], (ne_of_number hc).1, (ne_of_number hc).2.1⟩
  | real x =>
    rw [writeWith, realText]
    by_cases hx : x.isFinite = true
    · obtain ⟨c, text, htext, hc⟩ := exists_head_render hx
      rw [if_pos hx]
      exact ⟨c, text, htext, (ne_of_number hc).1, (ne_of_number hc).2.1⟩
    · rw [if_neg hx]
      exact ⟨'n', _, rfl, by decide, by decide⟩
  | str s => exact ⟨'"', _, rfl, by decide, by decide⟩
  | arr items =>
    cases items with
    | nil => exact ⟨'[', _, rfl, by decide, by decide⟩
    | cons x xs => exact ⟨'[', _, by rw [writeWith], by decide, by decide⟩
  | obj members =>
    cases members with
    | nil => exact ⟨'\x7b', _, rfl, by decide, by decide⟩
    | cons x xs => exact ⟨'\x7b', _, by rw [writeWith], by decide, by decide⟩

theorem readValue_scalar {c : Char} (hblank : isBlank c = false) (harr : c ≠ '[')
    (hobj : c ≠ '\x7b') (fuel : ℕ) (text : List Char) :
    readValue (fuel + 1) (c :: text) = readScalar c text := by
  rw [readValue, skipBlanks_cons hblank]
  simp only [harr, hobj, if_false]

/-- A text that is a numeral is read as one. -/
theorem readValue_numeral {text rest : List Char} {n : Numeral}
    (hhead : ∃ c tail, text = c :: tail ∧ (c = '-' ∨ isDigit c = true))
    (hread : readNumeral (text ++ rest) = .ok (n, rest)) (fuel : ℕ) :
    readValue (fuel + 1) (text ++ rest) = (.num n, some rest) := by
  obtain ⟨c, tail, rfl, hc⟩ := hhead
  obtain ⟨hblank, -, harr, hobj, hquote⟩ := ne_of_number hc
  have hnumber : (decide (c = '-') || isDigit c) = true := by
    simpa only [Bool.or_eq_true, decide_eq_true_eq] using hc
  rw [List.cons_append] at hread ⊢
  rw [readValue_scalar hblank harr hobj, readScalar, if_neg hquote, if_pos hnumber, hread]

theorem readValue_quote (s : String) (fuel : ℕ) (rest : List Char) :
    readValue (fuel + 1) (quote s ++ rest) = (.str (some s), some rest) := by
  have hread := readString_quoted s rest
  rw [quote, List.cons_append, List.append_assoc, List.singleton_append,
    readValue_scalar (by decide) (by decide) (by decide), readScalar, if_pos rfl, hread]

theorem readKey_quote (isFirst : Bool) (k : String) (rest : List Char) :
    readKey isFirst (quote k ++ ':' :: rest) = .colon (some k) rest := by
  have hread := readString_quoted k (':' :: rest)
  rw [quote, List.cons_append, List.append_assoc, List.singleton_append]
  simp only [readKey, hread]
  rw [skipBlanks_cons (by decide)]
  simp only [if_true]

theorem readItems_entry {fuel : ℕ} {isFirst : Bool} {text entry behind rest : List Char} {d : Doc}
    {ds : List Doc} (hnext : nextItem isFirst text = .entry entry)
    (hvalue : readValue fuel entry = (d, some behind))
    (hitems : readItems fuel (skipBlanks behind) false = (ds, none, some rest)) :
    readItems (fuel + 1) text isFirst = (d :: ds, none, some rest) := by
  rw [readItems, hnext]
  simp only [hvalue, hitems]

theorem readMembers_entry {fuel : ℕ} {isFirst : Bool} {text entry value behind rest : List Char}
    {key : Option String} {d : Doc} {ds : List (Option String × Doc)}
    (hnext : nextKey isFirst text = .entry entry) (hkey : readKey isFirst entry = .colon key value)
    (hvalue : readValue fuel value = (d, some behind))
    (hmembers : readMembers fuel (skipBlanks behind) false = (ds, none, some rest)) :
    readMembers (fuel + 1) text isFirst = ((key, d) :: ds, none, some rest) := by
  rw [readMembers, hnext]
  simp only [hkey, hvalue, hmembers]

theorem readValue_blanks {blanks : List Char} (h : ∀ c ∈ blanks, isBlank c = true) (fuel : ℕ)
    (text : List Char) : readValue fuel (blanks ++ text) = readValue fuel text := by
  cases fuel with
  | zero => rw [readValue, readValue]
  | succ fuel => rw [readValue, readValue, skipBlanks_append h]

theorem ends_itemsBehind (l : Layout) (depth : Nat) (items : List Json) {blanks : List Char}
    (h : ∀ c ∈ blanks, isBlank c = true) (rest : List Char) :
    Ends (itemsBehind l depth items ++ (blanks ++ ']' :: rest)) := by
  cases items with
  | nil => exact ends_append h (by decide) rest
  | cons x xs =>
    rw [itemsBehind]
    exact @ends_append [] (by simp) ',' (by decide) _

theorem ends_membersBehind (l : Layout) (depth : Nat) (members : List (String × Json))
    {blanks : List Char} (h : ∀ c ∈ blanks, isBlank c = true) (rest : List Char) :
    Ends (membersBehind l depth members ++ (blanks ++ '\x7d' :: rest)) := by
  cases members with
  | nil => exact ends_append h (by decide) rest
  | cons x xs =>
    rw [membersBehind]
    exact @ends_append [] (by simp) ',' (by decide) _

theorem readValue_real (x : Float) {rest : List Char} (hrest : Ends rest) (fuel : ℕ) :
    readValue (fuel + 1) (realText x ++ rest) = (docOf (.real x), some rest) := by
  rw [realText, docOf]
  by_cases hx : x.isFinite = true
  · rw [if_pos hx, if_pos hx]
    exact readValue_numeral (exists_head_render hx) (readNumeral_render hx hrest) fuel
  · rw [if_neg hx, if_neg hx]
    exact readValue_scalar (by decide) (by decide) (by decide) _ _

theorem exists_fuel {l : Layout} {depth fuel : ℕ} {j : Json}
    (h : 2 * (writeWith l depth j).length ≤ fuel) :
    ∃ n, fuel = n + 1 ∧ 2 * (writeWith l depth j).length ≤ n + 1 := by
  obtain ⟨c, text, htext, -⟩ := exists_head_writeWith l depth j
  refine ⟨fuel - 1, ?_, ?_⟩
  · rw [htext, List.length_cons] at h
    omega
  · omega

mutual
/-- A value is read back from its text. The fuel is used up by the depth of the value and the number
of its items, and each of them takes a character at least. -/
theorem readValue_writeWith (l : Layout) : ∀ (j : Json) (depth fuel : ℕ) (rest : List Char),
    Ends rest → 2 * (writeWith l depth j).length ≤ fuel →
    readValue fuel (writeWith l depth j ++ rest) = (docOf j, some rest)
  | .null, depth, _, rest, _, hfuel => by
    obtain ⟨fuel, rfl, -⟩ := exists_fuel hfuel
    exact readValue_scalar (by decide) (by decide) (by decide) _ _
  | .bool true, depth, _, rest, _, hfuel => by
    obtain ⟨fuel, rfl, -⟩ := exists_fuel hfuel
    exact readValue_scalar (by decide) (by decide) (by decide) _ _
  | .bool false, depth, _, rest, _, hfuel => by
    obtain ⟨fuel, rfl, -⟩ := exists_fuel hfuel
    exact readValue_scalar (by decide) (by decide) (by decide) _ _
  | .int n, depth, _, rest, hrest, hfuel => by
    obtain ⟨fuel, rfl, -⟩ := exists_fuel hfuel
    exact readValue_numeral (exists_head_int n) (readNumeral_int n hrest) fuel
  | .real x, depth, _, rest, hrest, hfuel => by
    obtain ⟨fuel, rfl, -⟩ := exists_fuel hfuel
    exact readValue_real x hrest fuel
  | .str s, depth, _, rest, _, hfuel => by
    obtain ⟨fuel, rfl, -⟩ := exists_fuel hfuel
    exact readValue_quote s fuel rest
  | .arr [], depth, _, rest, _, hfuel => by
    obtain ⟨fuel, rfl, hfuel⟩ := exists_fuel hfuel
    obtain ⟨fuel, rfl⟩ : ∃ n, fuel = n + 1 := ⟨fuel - 1, by simp [writeWith] at hfuel; omega⟩
    rfl
  | .arr (x :: xs), depth, _, rest, _, hfuel => by
    obtain ⟨fuel, rfl, hfuel⟩ := exists_fuel hfuel
    rw [writeWith] at hfuel ⊢
    simp only [List.length_cons, List.length_append] at hfuel
    obtain ⟨fuel, rfl⟩ : ∃ n, fuel = n + 1 := ⟨fuel - 1, by omega⟩
    have hline := l.line_blank depth
    have hvalue := readValue_writeWith l x (depth + 1) fuel _
      (ends_itemsBehind l (depth + 1) xs hline rest) (by omega)
    have hitems := readItems_itemsBehind l xs (depth + 1) fuel _ rest hline (by omega)
    obtain ⟨c, text, htext, hblank, hend⟩ := exists_head_writeWith l (depth + 1) x
    -- no value begins with the bracket that ends the list
    have hfirst : ∀ behind, nextItem true (skipBlanks (l.line (depth + 1)
        ++ (writeWith l (depth + 1) x ++ behind))) = .entry (writeWith l (depth + 1) x ++ behind) := by
      intro behind
      rw [skipBlanks_append (l.line_blank (depth + 1)), htext, List.cons_append,
        skipBlanks_cons hblank, nextItem, if_neg hend, if_pos rfl]
    simp only [List.cons_append, List.append_assoc, List.nil_append]
    rw [readValue, skipBlanks_cons (by decide), docOf, docsOf]
    simp only [if_true, readItems_entry (hfirst _) hvalue hitems]
  | .obj [], depth, _, rest, _, hfuel => by
    obtain ⟨fuel, rfl, hfuel⟩ := exists_fuel hfuel
    obtain ⟨fuel, rfl⟩ : ∃ n, fuel = n + 1 := ⟨fuel - 1, by simp [writeWith] at hfuel; omega⟩
    rfl
  | .obj ((k, x) :: xs), depth, _, rest, _, hfuel => by
    obtain ⟨fuel, rfl, hfuel⟩ := exists_fuel hfuel
    rw [writeWith] at hfuel ⊢
    simp only [List.length_cons, List.length_append] at hfuel
    obtain ⟨fuel, rfl⟩ : ∃ n, fuel = n + 1 := ⟨fuel - 1, by omega⟩
    have hline := l.line_blank depth
    have hvalue := readValue_writeWith l x (depth + 1) fuel _
      (ends_membersBehind l (depth + 1) xs hline rest) (by omega)
    have hmembers := readMembers_membersBehind l xs (depth + 1) fuel _ rest hline (by omega)
    have hfirst : ∀ behind, nextKey true (skipBlanks (l.line (depth + 1) ++ (quote k ++ behind)))
        = .entry (quote k ++ behind) := by
      intro behind
      rw [skipBlanks_append (l.line_blank (depth + 1)), quote, List.cons_append,
        skipBlanks_cons (by decide), nextKey, if_neg (by decide), if_pos rfl]
    rw [← readValue_blanks l.gap_blank] at hvalue
    simp only [List.cons_append, List.append_assoc, List.nil_append]
    rw [readValue, skipBlanks_cons (by decide), docOf, memberDocsOf]
    simp only [show ('\x7b' : Char) ≠ '[' by decide, if_false, if_true,
      readMembers_entry (hfirst _) (readKey_quote true k _) hvalue hmembers]

theorem readItems_itemsBehind (l : Layout) : ∀ (items : List Json) (depth fuel : ℕ)
    (blanks rest : List Char), (∀ c ∈ blanks, isBlank c = true) →
    2 * (itemsBehind l depth items).length + 1 ≤ fuel →
    readItems fuel (skipBlanks (itemsBehind l depth items ++ (blanks ++ ']' :: rest))) false
      = (docsOf items, none, some rest)
  | [], depth, fuel, blanks, rest, hblanks, hfuel => by
    obtain ⟨fuel, rfl⟩ : ∃ n, fuel = n + 1 := ⟨fuel - 1, by omega⟩
    rw [itemsBehind, List.nil_append, skipBlanks_append hblanks, skipBlanks_cons (by decide), readItems,
      docsOf]
    rfl
  | x :: xs, depth, fuel, blanks, rest, hblanks, hfuel => by
    obtain ⟨fuel, rfl⟩ : ∃ n, fuel = n + 1 := ⟨fuel - 1, by omega⟩
    rw [itemsBehind, List.length_cons, List.length_append, List.length_append] at hfuel
    have hvalue := readValue_writeWith l x depth fuel _ (ends_itemsBehind l depth xs hblanks rest)
      (by omega)
    have hitems := readItems_itemsBehind l xs depth fuel blanks rest hblanks (by omega)
    rw [itemsBehind, List.cons_append, skipBlanks_cons (by decide), docsOf]
    refine readItems_entry rfl ?_ hitems
    rw [List.append_assoc, List.append_assoc, readValue_blanks (l.line_blank depth)]
    exact hvalue

theorem readMembers_membersBehind (l : Layout) : ∀ (members : List (String × Json))
    (depth fuel : ℕ) (blanks rest : List Char), (∀ c ∈ blanks, isBlank c = true) →
    2 * (membersBehind l depth members).length + 1 ≤ fuel →
    readMembers fuel (skipBlanks (membersBehind l depth members ++ (blanks ++ '\x7d' :: rest))) false
      = (memberDocsOf members, none, some rest)
  | [], depth, fuel, blanks, rest, hblanks, hfuel => by
    obtain ⟨fuel, rfl⟩ : ∃ n, fuel = n + 1 := ⟨fuel - 1, by omega⟩
    rw [membersBehind, List.nil_append, skipBlanks_append hblanks, skipBlanks_cons (by decide),
      readMembers, memberDocsOf]
    rfl
  | (k, x) :: xs, depth, fuel, blanks, rest, hblanks, hfuel => by
    obtain ⟨fuel, rfl⟩ : ∃ n, fuel = n + 1 := ⟨fuel - 1, by omega⟩
    rw [membersBehind] at hfuel
    simp only [List.length_cons, List.length_append] at hfuel
    have hvalue := readValue_writeWith l x depth fuel _ (ends_membersBehind l depth xs hblanks rest)
      (by omega)
    have hmembers := readMembers_membersBehind l xs depth fuel blanks rest hblanks (by omega)
    have hnext : ∀ behind, nextKey false (',' :: (l.line depth ++ (quote k ++ behind)))
        = .entry (quote k ++ behind) := by
      intro behind
      rw [nextKey, if_neg (by decide), if_neg (by decide), if_pos rfl,
        skipBlanks_append (l.line_blank depth), quote, List.cons_append, skipBlanks_cons (by decide)]
    rw [← readValue_blanks l.gap_blank] at hvalue
    rw [membersBehind, List.cons_append, skipBlanks_cons (by decide), memberDocsOf]
    simp only [List.append_assoc, List.cons_append]
    exact readMembers_entry (hnext _) (readKey_quote false k _) hvalue hmembers
end

theorem readDoc_writeWith (l : Layout) (j : Json) : readDoc (writeWith l 0 j) = (docOf j, some []) := by
  have h := readValue_writeWith l j 0 (2 * (writeWith l 0 j).length + 2) []
    (fun c hc => by cases hc) (by omega)
  rwa [List.append_nil] at h

/-- What is decoded from the text of a value is decoded from its document. -/
theorem decodeText_writeWith {α : Type} (decode : Decoder α) (l : Layout) (j : Json) :
    decodeText decode (writeWith l 0 j) = decode (docOf j) := by
  rw [decodeText, readDoc_writeWith]
  cases h : decode (docOf j) with
  | error f => simp only [h]
  | ok x => simp only [h]; rfl

theorem decodeText_pretty {α : Type} (decode : Decoder α) (j : Json) :
    decodeText decode j.pretty.toList = decode (docOf j) := by
  rw [pretty, String.toList_ofList, writePretty_eq, decodeText_writeWith]

theorem decodeText_compact {α : Type} (decode : Decoder α) (j : Json) :
    decodeText decode j.compact.toList = decode (docOf j) := by
  rw [compact, String.toList_ofList, writeCompact_eq j 0, decodeText_writeWith]

end DefectScan.Json
