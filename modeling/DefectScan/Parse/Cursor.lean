/-!
# Places in a text

A position counts bytes of the UTF-8 form; a column is counted from the start of its line. A cursor
is a position together with the text that is still ahead.
-/

namespace DefectScan.Parse

structure Position where
  byte : Nat
  row : Nat
  column : Nat
deriving DecidableEq, Repr, Inhabited

namespace Position

def start : Position := ⟨0, 0, 0⟩

/-- The position behind a character. -/
def past (p : Position) (c : Char) : Position :=
  if c = '\n' then ⟨p.byte + c.utf8Size, p.row + 1, 0⟩
  else ⟨p.byte + c.utf8Size, p.row, p.column + c.utf8Size⟩

end Position

structure Cursor where
  position : Position
  rest : List Char
deriving Inhabited

namespace Cursor

def ofText (text : List Char) : Cursor := ⟨.start, text⟩

/-- Moves over at most `n` characters. -/
def skip (c : Cursor) : Nat → Cursor
  | 0 => c
  | n + 1 =>
    match c.rest with
    | [] => c
    | x :: rest => skip ⟨c.position.past x, rest⟩ n

def byte (c : Cursor) : Nat := c.position.byte

end Cursor

/-- The characters of a text from one byte to another. -/
def slice (text : List Char) (first last : Nat) : List Char :=
  go text 0
where
  go : List Char → Nat → List Char
  | [], _ => []
  | c :: rest, at_ =>
    if last ≤ at_ then []
    else if first ≤ at_ then c :: go rest (at_ + c.utf8Size)
    else go rest (at_ + c.utf8Size)

end DefectScan.Parse
