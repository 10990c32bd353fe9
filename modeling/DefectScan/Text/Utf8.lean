/-!
# Text from bytes

Bytes are read as UTF-8. A sequence that is not valid becomes one replacement character for each
longest part of it that could have begun a character.
-/

namespace DefectScan.Text.Utf8

/-- Stands for bytes that are no character. -/
def replacement : Char := '�'

/-- How a character goes on behind its first byte: the number of bytes that follow, and the range of
the first of them. -/
structure Lead where
  following : Nat
  low : UInt8
  high : UInt8
  /-- The bits of the first byte. -/
  bits : Nat

/-- What a first byte above the ASCII range announces. -/
def lead? (b : UInt8) : Option Lead :=
  if 0xC2 ≤ b && b ≤ 0xDF then some ⟨1, 0x80, 0xBF, b.toNat - 0xC0⟩
  else if b = 0xE0 then some ⟨2, 0xA0, 0xBF, 0⟩
  else if b = 0xED then some ⟨2, 0x80, 0x9F, 0xD⟩
  else if 0xE1 ≤ b && b ≤ 0xEF then some ⟨2, 0x80, 0xBF, b.toNat - 0xE0⟩
  else if b = 0xF0 then some ⟨3, 0x90, 0xBF, 0⟩
  else if 0xF1 ≤ b && b ≤ 0xF3 then some ⟨3, 0x80, 0xBF, b.toNat - 0xF0⟩
  else if b = 0xF4 then some ⟨3, 0x80, 0x8F, 4⟩
  else none

/-- Reads the bytes that follow a first byte: the character, and how many bytes were taken. -/
def readTail (low high : UInt8) : Nat → Nat → Nat → List UInt8 → Char × Nat
  | 0, bits, taken, _ => (Char.ofNat bits, taken)
  | _ + 1, _, taken, [] => (replacement, taken)
  | n + 1, bits, taken, b :: rest =>
    if low ≤ b && b ≤ high then readTail 0x80 0xBF n (bits * 64 + (b.toNat - 0x80)) (taken + 1) rest
    else (replacement, taken)

/-- The first character of some bytes, and how many bytes behind the first it takes. -/
def readChar (b : UInt8) (rest : List UInt8) : Char × Nat :=
  if b < 0x80 then (Char.ofNat b.toNat, 0)
  else
    match lead? b with
    | some l => readTail l.low l.high l.following l.bits 0 rest
    | none => (replacement, 0)

/-- The text of some bytes. -/
def decode (bytes : List UInt8) : List Char :=
  match bytes with
  | [] => []
  | b :: rest =>
    let (c, taken) := readChar b rest
    c :: decode (rest.drop taken)
termination_by bytes.length
decreasing_by
  rw [List.length_drop, List.length_cons]
  omega

end DefectScan.Text.Utf8
