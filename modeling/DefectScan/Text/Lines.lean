/-!
# Lines

A text has one line more than it has line feeds. `numbered?` looks up a line by its number, counted
from 1, and joining the lines again gives the text (`join_split`).
-/

namespace DefectScan.Text.Lines

/-- The lines between line feeds. -/
def split : List Char → List (List Char)
  | [] => [[]]
  | c :: cs =>
    if c = '\n' then [] :: split cs
    else
      match split cs with
      | [] => [[c]]
      | l :: ls => (c :: l) :: ls

def join : List (List Char) → List Char
  | [] => []
  | [l] => l
  | l :: ls => l ++ '\n' :: join ls

/-- The number of lines. -/
def count (text : List Char) : Nat := (split text).length

/-- The line with a number. -/
def numbered? (text : List Char) (n : Nat) : Option (List Char) :=
  if n = 0 then none else (split text)[n - 1]?

theorem split_ne_nil (text : List Char) : split text ≠ [] := by
  cases text with
  | nil => simp [split]
  | cons c cs =>
    simp only [split]
    split
    · simp
    · split <;> simp

theorem join_cons_cons (l m : List Char) (ls : List (List Char)) :
    join (l :: m :: ls) = l ++ '\n' :: join (m :: ls) := rfl

theorem join_split (text : List Char) : join (split text) = text := by
  induction text with
  | nil => rfl
  | cons c cs ih =>
    cases h : split cs with
    | nil => exact absurd h (split_ne_nil cs)
    | cons l ls =>
      rw [h] at ih
      by_cases hc : c = '\n'
      · subst hc
        simp [split, h, join_cons_cons, ih]
      · cases ls with
        | nil => simpa [split, h, hc, join] using ih
        | cons m ms => simpa [split, h, hc, join_cons_cons] using ih

def dropCarriageReturn (line : List Char) : List Char :=
  if line.getLast? = some '\r' then line.dropLast else line

/-- The lines that a reader sees: a carriage return before a line feed belongs to the line end, and
nothing behind the last line feed is no line. -/
def seen (text : List Char) : List (List Char) :=
  let ls := split text
  let whole := (ls.dropLast).map dropCarriageReturn
  match ls.getLast? with
  | some [] => whole
  | some l => whole ++ [l]
  | none => whole

end DefectScan.Text.Lines
