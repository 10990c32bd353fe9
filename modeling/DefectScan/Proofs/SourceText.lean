import DefectScan.Files.Sources
import DefectScan.Proofs.DirectoryFiles
import DefectScan.Proofs.FindingIdentity
import DefectScan.Proofs.Lines

/-!
# Text from any bytes

A text stands for the bytes that it was read from, piece by piece: a character for its own bytes, or a
replacement for one or more bytes of which none is ASCII (`StandsFor`). Whatever the bytes are, the
text that is read stands for them (`decode_standsFor`), so nothing that is ASCII is lost, added or
moved, and each line of the text stands for the same line of the bytes:

    List.Forall₂ StandsFor (Lines.split text) (bytes.splitOn 10)
-/

namespace DefectScan

open Text

namespace Text.Utf8

/-! ## The bytes of a character -/

theorem ofNat_eq_iff {n : Nat} {b : UInt8} : UInt8.ofNat n = b ↔ n % 256 = b.toNat := by
  rw [← UInt8.toNat_inj, UInt8.toNat_ofNat']

theorem le_ofNat {n : Nat} (h : 0x80 ≤ n % 256) : 0x80 ≤ UInt8.ofNat n := by
  rw [UInt8.le_iff_toNat_le, UInt8.toNat_ofNat']
  exact h

theorem utf8EncodeChar_ascii {c : Char} (h : c.toNat < 0x80) :
    String.utf8EncodeChar c = [UInt8.ofNat c.toNat] :=
  if_pos (Nat.le_of_lt_succ h)

theorem le_of_mem_utf8EncodeChar {c : Char} (h : 0x80 ≤ c.toNat) {b : UInt8}
    (hb : b ∈ String.utf8EncodeChar c) : 0x80 ≤ b := by
  have hlt : ¬ c.val.toNat ≤ 127 := Nat.not_le.mpr h
  rw [String.utf8EncodeChar, if_neg hlt] at hb
  split_ifs at hb
  all_goals
    simp only [List.mem_cons, List.not_mem_nil, or_false] at hb
    rcases hb with rfl | hb
    · exact le_ofNat (by omega)
  · rw [hb]
    exact le_ofNat (by omega)
  · rcases hb with rfl | rfl <;> exact le_ofNat (by omega)
  · rcases hb with rfl | rfl | rfl <;> exact le_ofNat (by omega)

theorem toNat_val_ofNat {n : Nat} (h : n.isValidChar) : (Char.ofNat n).val.toNat = n := by
  have hnat := Char.toNat_ofNat n
  rwa [if_pos h] at hnat

theorem utf8EncodeChar_two {a b : UInt8} (ha : 0xC2 ≤ a.toNat) (ha' : a.toNat ≤ 0xDF)
    (hb : 0x80 ≤ b.toNat) (hb' : b.toNat ≤ 0xBF) :
    String.utf8EncodeChar (Char.ofNat ((a.toNat - 0xC0) * 64 + (b.toNat - 0x80))) = [a, b] := by
  rw [String.utf8EncodeChar, toNat_val_ofNat (Or.inl (by omega)), if_neg (by omega),
    if_pos (by omega), List.cons_eq_cons, List.cons_eq_cons]
  exact ⟨ofNat_eq_iff.mpr (by omega), ofNat_eq_iff.mpr (by omega), rfl⟩

theorem utf8EncodeChar_three {a b c : UInt8} {high : Nat} (ha : 0xE0 ≤ a.toNat)
    (ha' : a.toNat ≤ 0xEF) (hhigh : high = (a.toNat - 0xE0) * 64 + (b.toNat - 0x80))
    (hlong : 0x20 ≤ high) (hvalid : high < 0x360 ∨ 0x380 ≤ high) (hb : 0x80 ≤ b.toNat)
    (hb' : b.toNat ≤ 0xBF) (hc : 0x80 ≤ c.toNat) (hc' : c.toNat ≤ 0xBF) :
    String.utf8EncodeChar (Char.ofNat (high * 64 + (c.toNat - 0x80))) = [a, b, c] := by
  have hchar : (high * 64 + (c.toNat - 0x80)).isValidChar := by
    unfold Nat.isValidChar
    omega
  rw [String.utf8EncodeChar, toNat_val_ofNat hchar, if_neg (by omega), if_neg (by omega),
    if_pos (by omega), List.cons_eq_cons, List.cons_eq_cons, List.cons_eq_cons]
  exact ⟨ofNat_eq_iff.mpr (by omega), ofNat_eq_iff.mpr (by omega), ofNat_eq_iff.mpr (by omega), rfl⟩

theorem utf8EncodeChar_four {a b c d : UInt8} {high : Nat} (ha : 0xF0 ≤ a.toNat)
    (ha' : a.toNat ≤ 0xF4) (hhigh : high = (a.toNat - 0xF0) * 64 + (b.toNat - 0x80))
    (hlong : 0x10 ≤ high) (hvalid : high < 0x110) (hb : 0x80 ≤ b.toNat) (hb' : b.toNat ≤ 0xBF)
    (hc : 0x80 ≤ c.toNat) (hc' : c.toNat ≤ 0xBF) (hd : 0x80 ≤ d.toNat) (hd' : d.toNat ≤ 0xBF) :
    String.utf8EncodeChar (Char.ofNat ((high * 64 + (c.toNat - 0x80)) * 64 + (d.toNat - 0x80)))
      = [a, b, c, d] := by
  have hchar : ((high * 64 + (c.toNat - 0x80)) * 64 + (d.toNat - 0x80)).isValidChar := by
    unfold Nat.isValidChar
    omega
  rw [String.utf8EncodeChar, toNat_val_ofNat hchar, if_neg (by omega), if_neg (by omega),
    if_neg (by omega), List.cons_eq_cons, List.cons_eq_cons, List.cons_eq_cons, List.cons_eq_cons]
  exact ⟨ofNat_eq_iff.mpr (by omega), ofNat_eq_iff.mpr (by omega), ofNat_eq_iff.mpr (by omega),
    ofNat_eq_iff.mpr (by omega), rfl⟩

/-! ## What a first byte announces -/

/-- The three kinds of first bytes above the ASCII range. What may follow rules out longer forms of
shorter characters, surrogates and numbers beyond the last character. -/
inductive Announces (a : UInt8) : Lead → Prop
  | two (ha : 0xC2 ≤ a.toNat) (ha' : a.toNat ≤ 0xDF) : Announces a ⟨1, 0x80, 0xBF, a.toNat - 0xC0⟩
  | three {low high : UInt8} (ha : 0xE0 ≤ a.toNat) (ha' : a.toNat ≤ 0xEF) (hlow : 0x80 ≤ low.toNat)
      (hhigh : high.toNat ≤ 0xBF)
      (hvalid : ∀ b : Nat, low.toNat ≤ b → b ≤ high.toNat →
        0x20 ≤ (a.toNat - 0xE0) * 64 + (b - 0x80) ∧
          ((a.toNat - 0xE0) * 64 + (b - 0x80) < 0x360 ∨ 0x380 ≤ (a.toNat - 0xE0) * 64 + (b - 0x80))) :
      Announces a ⟨2, low, high, a.toNat - 0xE0⟩
  | four {low high : UInt8} (ha : 0xF0 ≤ a.toNat) (ha' : a.toNat ≤ 0xF4) (hlow : 0x80 ≤ low.toNat)
      (hhigh : high.toNat ≤ 0xBF)
      (hvalid : ∀ b : Nat, low.toNat ≤ b → b ≤ high.toNat →
        0x10 ≤ (a.toNat - 0xF0) * 64 + (b - 0x80) ∧ (a.toNat - 0xF0) * 64 + (b - 0x80) < 0x110) :
      Announces a ⟨3, low, high, a.toNat - 0xF0⟩

theorem announces_of_lead? {a : UInt8} {l : Lead} (h : lead? a = some l) : Announces a l := by
  unfold lead? at h
  simp only [Bool.and_eq_true, decide_eq_true_eq, UInt8.le_iff_toNat_le, UInt8.reduceToNat] at h
  split_ifs at h with h2 hE0 hED hE hF0 hF hF4
  all_goals cases h
  · exact .two h2.1 h2.2
  · subst hE0
    exact .three (by decide) (by decide) (by decide) (by decide) fun b hb hb' => by
      simp only [UInt8.reduceToNat] at hb hb' ⊢
      omega
  · subst hED
    exact .three (by decide) (by decide) (by decide) (by decide) fun b hb hb' => by
      simp only [UInt8.reduceToNat] at hb hb' ⊢
      omega
  · have hE0' : a.toNat ≠ 0xE0 := fun heq => hE0 (UInt8.toNat_inj.mp heq)
    have hED' : a.toNat ≠ 0xED := fun heq => hED (UInt8.toNat_inj.mp heq)
    exact .three (by omega) hE.2 (by decide) (by decide) fun b hb hb' => by
      simp only [UInt8.reduceToNat] at hb hb' ⊢
      omega
  · subst hF0
    exact .four (by decide) (by decide) (by decide) (by decide) fun b hb hb' => by
      simp only [UInt8.reduceToNat] at hb hb' ⊢
      omega
  · exact .four (by omega) (by omega) (by decide) (by decide) fun b hb hb' => by
      simp only [UInt8.reduceToNat] at hb hb' ⊢
      omega
  · subst hF4
    exact .four (by decide) (by decide) (by decide) (by decide) fun b hb hb' => by
      simp only [UInt8.reduceToNat] at hb hb' ⊢
      omega

/-! ## One step of reading -/

/-- The bytes behind a first one: the first of them in a range of its own, the others in the range of
all bytes that go on. -/
def Follow (low high : UInt8) : List UInt8 → Prop
  | [] => True
  | b :: bs => (low.toNat ≤ b.toNat ∧ b.toNat ≤ high.toNat) ∧
      ∀ c ∈ bs, 0x80 ≤ c.toNat ∧ c.toNat ≤ 0xBF

/-- The bits of a first byte with those of the bytes behind it. -/
def withBits (bits : Nat) (bs : List UInt8) : Nat :=
  bs.foldl (fun v b => v * 64 + (b.toNat - 0x80)) bits

/-- Either all bytes that were announced are read, or reading stops in front of one that does not
belong there. -/
theorem readTail_cases {low : UInt8} (hlow : 0x80 ≤ low.toNat) (high : UInt8) (n bits taken : Nat)
    (bytes : List UInt8) :
    ∃ part others, bytes = part ++ others ∧
      ((part.length = n ∧ Follow low high part ∧
          readTail low high n bits taken bytes = (Char.ofNat (withBits bits part), taken + part.length)) ∨
        ((∀ b ∈ part, 0x80 ≤ b) ∧
          readTail low high n bits taken bytes = (replacement, taken + part.length))) := by
  induction n generalizing low high bits taken bytes with
  | zero => exact ⟨[], bytes, rfl, .inl ⟨rfl, trivial, rfl⟩⟩
  | succ n ih =>
    cases bytes with
    | nil => exact ⟨[], [], rfl, .inr ⟨by simp, rfl⟩⟩
    | cons b rest =>
      by_cases hb : low ≤ b ∧ b ≤ high
      · have hread : readTail low high (n + 1) bits taken (b :: rest)
            = readTail 0x80 0xBF n (bits * 64 + (b.toNat - 0x80)) (taken + 1) rest := by
          simp [readTail, hb.1, hb.2]
        obtain ⟨part, others, rfl, h⟩ :=
          @ih 0x80 (by decide) 0xBF (bits * 64 + (b.toNat - 0x80)) (taken + 1) rest
        have hlength : taken + 1 + part.length = taken + (b :: part).length := by
          rw [List.length_cons]
          omega
        refine ⟨b :: part, others, rfl, ?_⟩
        rw [hread, ← hlength]
        rcases h with ⟨hn, hfollow, hchar⟩ | ⟨hpart, hchar⟩
        · have hfirst : low.toNat ≤ b.toNat ∧ b.toNat ≤ high.toNat :=
            hb.imp UInt8.le_iff_toNat_le.mp UInt8.le_iff_toNat_le.mp
          have hbits : withBits bits (b :: part) = withBits (bits * 64 + (b.toNat - 0x80)) part :=
            List.foldl_cons ..
          rw [hbits]
          refine .inl ⟨by rw [List.length_cons, hn], ⟨hfirst, fun c hc => ?_⟩, hchar⟩
          cases part with
          | nil => cases hc
          | cons x xs =>
            rcases List.mem_cons.mp hc with rfl | hc
            · exact hfollow.1
            · exact hfollow.2 c hc
        · refine .inr ⟨List.forall_mem_cons.mpr ⟨?_, hpart⟩, hchar⟩
          exact UInt8.le_iff_toNat_le.mpr (hlow.trans (UInt8.le_iff_toNat_le.mp hb.1))
      · refine ⟨[], b :: rest, rfl, .inr ⟨by simp, ?_⟩⟩
        have hstop : ¬ (decide (low ≤ b) && decide (b ≤ high)) = true := by simpa using hb
        rw [readTail, if_neg hstop]
        rfl

/-- What was announced and read is a character, and these are its bytes. -/
theorem Announces.encode {a : UInt8} {l : Lead} (h : Announces a l) {part : List UInt8}
    (hlength : part.length = l.following) (hpart : Follow l.low l.high part) :
    String.utf8EncodeChar (Char.ofNat (withBits l.bits part)) = a :: part := by
  cases h with
  | two ha ha' =>
    obtain ⟨b, rfl⟩ := List.length_eq_one_iff.mp hlength
    exact utf8EncodeChar_two ha ha' hpart.1.1 hpart.1.2
  | three ha ha' hlow hhigh hvalid =>
    obtain ⟨b, c, rfl⟩ := List.length_eq_two.mp hlength
    obtain ⟨⟨hb, hb'⟩, hrest⟩ := hpart
    obtain ⟨hc, hc'⟩ := hrest c List.mem_cons_self
    obtain ⟨hlong, hchar⟩ := hvalid b.toNat hb hb'
    exact utf8EncodeChar_three ha ha' rfl hlong hchar (hlow.trans hb) (hb'.trans hhigh) hc hc'
  | four ha ha' hlow hhigh hvalid =>
    obtain ⟨b, c, d, rfl⟩ := List.length_eq_three.mp hlength
    obtain ⟨⟨hb, hb'⟩, hrest⟩ := hpart
    simp only [List.forall_mem_cons] at hrest
    obtain ⟨⟨hc, hc'⟩, ⟨hd, hd'⟩, -⟩ := hrest
    obtain ⟨hlong, hchar⟩ := hvalid b.toNat hb hb'
    exact utf8EncodeChar_four ha ha' rfl hlong hchar (hlow.trans hb) (hb'.trans hhigh) hc hc' hd hd'

theorem Announces.low {a : UInt8} {l : Lead} (h : Announces a l) : 0x80 ≤ l.low.toNat := by
  cases h with
  | two => exact Nat.le_refl 128
  | three _ _ hlow => exact hlow
  | four _ _ hlow => exact hlow

/-- A character for its own bytes, or a replacement for bytes of which none is ASCII. -/
inductive Piece : Char → List UInt8 → Prop
  | char (c : Char) : Piece c (String.utf8EncodeChar c)
  | replaced {part : List UInt8} (hne : part ≠ []) (hpart : ∀ b ∈ part, 0x80 ≤ b) :
      Piece replacement part

/-- One step of reading takes a piece. -/
theorem readChar_piece (a : UInt8) (rest : List UInt8) :
    ∃ part others, rest = part ++ others ∧ (readChar a rest).2 = part.length ∧
      Piece (readChar a rest).1 (a :: part) := by
  unfold readChar
  by_cases hascii : a < 0x80
  · rw [if_pos hascii]
    refine ⟨[], rest, rfl, rfl, ?_⟩
    have hlt : a.toNat < 128 := UInt8.lt_iff_toNat_lt.mp hascii
    have hnat : (Char.ofNat a.toNat).toNat = a.toNat := toNat_val_ofNat (Or.inl (by omega))
    have hbytes := Piece.char (Char.ofNat a.toNat)
    rwa [utf8EncodeChar_ascii (by rw [hnat]; exact hlt), hnat, UInt8.ofNat_toNat] at hbytes
  · have ha : 0x80 ≤ a := UInt8.not_lt.mp hascii
    rw [if_neg hascii]
    cases hlead : lead? a with
    | none => exact ⟨[], rest, rfl, rfl, .replaced (List.cons_ne_nil _ _) (by simpa using ha)⟩
    | some l =>
      have hl := announces_of_lead? hlead
      obtain ⟨part, others, hrest, h⟩ := readTail_cases hl.low l.high l.following l.bits 0 rest
      refine ⟨part, others, hrest, ?_⟩
      simp only
      rcases h with ⟨hlength, hpart, hread⟩ | ⟨hpart, hread⟩
      · rw [hread, ← hl.encode hlength hpart]
        exact ⟨Nat.zero_add _, .char _⟩
      · rw [hread]
        exact ⟨Nat.zero_add _, .replaced (List.cons_ne_nil _ _) (List.forall_mem_cons.mpr ⟨ha, hpart⟩)⟩

/-! ## Texts that stand for bytes -/

/-- A text stands for bytes piece by piece. -/
inductive StandsFor : List Char → List UInt8 → Prop
  | nil : StandsFor [] []
  | cons {c : Char} {part : List UInt8} {text : List Char} {bytes : List UInt8}
      (hpiece : Piece c part) (h : StandsFor text bytes) : StandsFor (c :: text) (part ++ bytes)

theorem decode_standsFor (bytes : List UInt8) : StandsFor (decode bytes) bytes := by
  induction bytes using decode.induct with
  | case1 =>
    rw [decode]
    exact .nil
  | case2 a rest c taken hread ih =>
    obtain ⟨part, others, rfl, htaken, hpiece⟩ := readChar_piece a rest
    rw [hread] at htaken hpiece
    rw [decode, hread]
    simp only at htaken hpiece ih ⊢
    rw [htaken, List.drop_left] at ih ⊢
    exact .cons hpiece ih

theorem encode_standsFor (text : List Char) :
    StandsFor text (text.flatMap String.utf8EncodeChar) := by
  induction text with
  | nil => exact .nil
  | cons c text ih => exact .cons (.char c) ih

theorem Piece.ascii {c : Char} {part : List UInt8} (h : Piece c part) :
    (part.filter (· < 0x80)).map (fun b => Char.ofNat b.toNat) = [c].filter (·.toNat < 0x80) := by
  have hnone {bytes : List UInt8} (hhigh : ∀ b ∈ bytes, 0x80 ≤ b) : bytes.filter (· < 0x80) = [] := by
    rw [List.filter_eq_nil_iff]
    exact fun b hb => by simpa using UInt8.not_lt.mpr (hhigh b hb)
  cases h with
  | char =>
    by_cases hascii : c.toNat < 0x80
    · have hnat : (UInt8.ofNat c.toNat).toNat = c.toNat := by
        rw [UInt8.toNat_ofNat']
        omega
      have hlt : UInt8.ofNat c.toNat < 0x80 := by
        rw [UInt8.lt_iff_toNat_lt, hnat]
        exact hascii
      simp [utf8EncodeChar_ascii hascii, hlt, hascii, hnat]
    · rw [hnone fun b hb => le_of_mem_utf8EncodeChar (Nat.not_lt.mp hascii) hb]
      simp [hascii]
  | replaced _ hpart =>
    rw [hnone hpart]
    decide

/-- What is ASCII stands in the text as it stands in the bytes. -/
theorem StandsFor.ascii {text : List Char} {bytes : List UInt8} (h : StandsFor text bytes) :
    text.filter (·.toNat < 0x80) = (bytes.filter (· < 0x80)).map (fun b => Char.ofNat b.toNat) := by
  induction h with
  | nil => rfl
  | @cons c part text bytes hpiece _ ih =>
    rw [List.filter_append, List.map_append, hpiece.ascii, ← ih, ← List.filter_append]
    rfl

theorem StandsFor.replaced_or_infix {text : List Char} {bytes : List UInt8}
    (h : StandsFor text bytes) {c : Char} (hc : c ∈ text) :
    c = replacement ∨ String.utf8EncodeChar c <:+: bytes := by
  induction h with
  | nil => cases hc
  | @cons d part text bytes hpiece _ ih =>
    rcases List.mem_cons.mp hc with rfl | hc
    · cases hpiece with
      | char => exact .inr (List.prefix_append _ _).isInfix
      | replaced => exact .inl rfl
    · exact (ih hc).imp_right fun hinfix => hinfix.trans (List.suffix_append _ _).isInfix

/-! ## Lines -/

theorem splitOn_append {α : Type} [BEq α] [LawfulBEq α] {a : α} {part : List α} (h : a ∉ part)
    (rest : List α) : (part ++ rest).splitOn a = (rest.splitOn a).modifyHead (part ++ ·) := by
  induction part with
  | nil => cases hsplit : rest.splitOn a <;> simp [hsplit]
  | cons b part ih =>
    rw [List.mem_cons, not_or] at h
    rw [List.cons_append, List.splitOn_cons_eq_if_modifyHead, if_neg (by simpa using Ne.symm h.1),
      ih h.2, List.modifyHead_modifyHead]
    rfl

/-- A line feed stands for its byte, and no other piece has this byte. -/
theorem Piece.newline {c : Char} {part : List UInt8} (h : Piece c part) :
    (c = '\n' ∧ part = [10]) ∨ (c ≠ '\n' ∧ 10 ∉ part) := by
  have hten : ¬ (0x80 : UInt8) ≤ 10 := by decide
  cases h with
  | char =>
    by_cases hc : c = '\n'
    · subst hc
      exact .inl ⟨rfl, by decide⟩
    · refine .inr ⟨hc, fun hmem => ?_⟩
      by_cases hascii : c.toNat < 0x80
      · rw [utf8EncodeChar_ascii hascii, List.mem_singleton, eq_comm, ofNat_eq_iff] at hmem
        have hnat : c.toNat = '\n'.toNat := by
          rw [Nat.mod_eq_of_lt (by omega)] at hmem
          exact hmem
        exact hc (Char.toNat_inj.mp hnat)
      · exact hten (le_of_mem_utf8EncodeChar (Nat.not_lt.mp hascii) hmem)
  | replaced _ hpart => exact .inr ⟨by decide, fun hmem => hten (hpart 10 hmem)⟩

/-- Each line of a text stands for the same line of the bytes. -/
theorem StandsFor.lines {text : List Char} {bytes : List UInt8} (h : StandsFor text bytes) :
    List.Forall₂ StandsFor (Lines.split text) (bytes.splitOn 10) := by
  induction h with
  | nil => exact .cons .nil .nil
  | @cons c part text bytes hpiece _ ih =>
    rcases hpiece.newline with ⟨rfl, rfl⟩ | ⟨hc, hpart⟩
    · rw [List.singleton_append, List.splitOn_cons_eq_if_modifyHead, if_pos (by decide)]
      exact .cons .nil ih
    · rw [splitOn_append hpart]
      obtain ⟨l, ls, hsplit⟩ := List.exists_cons_of_ne_nil (Lines.split_ne_nil text)
      rw [Lines.split_cons_of_ne hc hsplit]
      rw [hsplit] at ih
      cases hbytes : bytes.splitOn 10 with
      | nil => exact absurd hbytes (List.splitOn_ne_nil 10 bytes)
      | cons m ms =>
        rw [hbytes] at ih
        cases ih with
        | cons hfirst hrest => exact .cons (.cons hpiece hfirst) hrest

end Text.Utf8

namespace Sources

open Text.Utf8

theorem toUTF8_of_fromUTF8? {content : ByteArray} {text : String}
    (h : String.fromUTF8? content = some text) : text.toUTF8 = content := by
  rw [String.fromUTF8?] at h
  split at h
  · cases h
    rfl
  · cases h

theorem textOf_standsFor (content : ByteArray) :
    StandsFor (textOf content).toList content.toList := by
  rw [textOf]
  cases htext : String.fromUTF8? content with
  | some text =>
    have hcontent : content.toList = text.toList.flatMap String.utf8EncodeChar := by
      have hbytes : text.toList.utf8Encode = content := by
        rw [← toUTF8_of_fromUTF8? htext, ← String.toByteArray_ofList, String.ofList_toList]
        rfl
      rw [← hbytes, toList_eq_data, List.utf8Encode, List.data_toByteArray, List.toList_toArray]
    rw [hcontent]
    exact encode_standsFor text.toList
  | none =>
    simp only [String.toList_ofList]
    exact decode_standsFor content.toList

theorem toUTF8_textOf {content : ByteArray} (h : content.IsValidUTF8) :
    (textOf content).toUTF8 = content := by
  have htext : String.fromUTF8? content = some (String.fromUTF8 content h) := dif_pos h
  rw [textOf, htext]
  exact toUTF8_of_fromUTF8? htext

theorem run_read {root : Entry} {path : String} {content : ByteArray}
    (h : root.read path = .ok content) :
    (Sources.read path : TreeM (Except FileError String)).run root
      = (.ok (textOf content), root) := by
  rw [Sources.read, StateT.run_bind, TreeM.run_read, h]
  rfl

/-- Reading a source shifts nothing. The text that is read has the ASCII characters of the file and
no others, in their order; each further character is a replacement or its bytes stand in the file;
line by line the text stands for the file; and a file that is UTF-8 is read as it is. -/
theorem read_standsFor (root : Entry) (path : String) (content : ByteArray)
    (hfile : root.read path = .ok content) :
    ∃ text : String,
      (Sources.read path : TreeM (Except FileError String)).run root = (.ok text, root) ∧
      text.toList.filter (·.toNat < 0x80)
        = (content.toList.filter (· < 0x80)).map (fun b => Char.ofNat b.toNat) ∧
      (∀ c ∈ text.toList, 0x80 ≤ c.toNat →
        c = replacement ∨ String.utf8EncodeChar c <:+: content.toList) ∧
      List.Forall₂ StandsFor (Lines.split text.toList) (content.toList.splitOn 10) ∧
      (content.IsValidUTF8 → text.toUTF8 = content) := by
  have hstands := textOf_standsFor content
  exact ⟨textOf content, run_read hfile, hstands.ascii, fun c hc _ => hstands.replaced_or_infix hc,
    hstands.lines, toUTF8_textOf⟩

/-- A first byte alone before a line feed, half a pair of surrogates, and a character that breaks off
before a brace. -/
def brokenSource : ByteArray :=
  ⟨#[0x2F, 0xE9, 0x0A, 0xED, 0xA0, 0x80, 0xC3, 0xA9, 0xF0, 0x90, 0x7D, 0x0A]⟩

theorem read_standsFor_broken :
    (Entry.directory [("a.c", .file brokenSource)]).read "/a.c" = .ok brokenSource ∧
    ∃ text : String,
      (Sources.read "/a.c" : TreeM (Except FileError String)).run
          (.directory [("a.c", .file brokenSource)])
        = (.ok text, .directory [("a.c", .file brokenSource)]) ∧
      text.toList.filter (·.toNat < 0x80)
        = (brokenSource.toList.filter (· < 0x80)).map (fun b => Char.ofNat b.toNat) ∧
      (∀ c ∈ text.toList, 0x80 ≤ c.toNat →
        c = replacement ∨ String.utf8EncodeChar c <:+: brokenSource.toList) ∧
      List.Forall₂ StandsFor (Lines.split text.toList) (brokenSource.toList.splitOn 10) ∧
      (brokenSource.IsValidUTF8 → text.toUTF8 = brokenSource) := by
  have hfile : (Entry.directory [("a.c", .file brokenSource)]).read "/a.c" = .ok brokenSource := rfl
  exact ⟨hfile, read_standsFor _ _ _ hfile⟩

end Sources

end DefectScan
