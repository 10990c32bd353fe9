import DefectScan.Text.Blank
import DefectScan.Text.Word

/-!
# Patterns in a text

A pattern reads at the start of a text and returns what it takes note of and what remains. Its
occurrences in a text are found from left to right and do not overlap. The parts of an occurrence
make up the text: `behind.reverse ++ matched ++ after`.
-/

namespace DefectScan

/-- What a pattern has read at the start of a text. -/
structure Hit where
  /-- The word or the arguments that the pattern takes note of. -/
  captured : List (List Char)
  rest : List Char

structure Pattern where
  /-- The pattern begins only where no word character stands before it. -/
  startsWord : Bool
  read : List Char → Option Hit

/-- A pattern found in a text. -/
structure Occurrence where
  /-- The text before, last character first. -/
  behind : List Char
  matched : List Char
  captured : List (List Char)
  after : List Char

namespace Occurrence

/-- The number of the line on which an occurrence begins. -/
def line (o : Occurrence) : Nat := o.behind.count '\n' + 1

/-- The text before an occurrence on its line. -/
def lineBefore (o : Occurrence) : List Char := (o.behind.takeWhile (· ≠ '\n')).reverse

/-- The text with another in place of the occurrence. -/
def replace (o : Occurrence) (new : List Char) : List Char := o.behind.reverse ++ new ++ o.after

end Occurrence

namespace Pattern

/-- Reads a pattern between what stands behind and a text. -/
def readAt (p : Pattern) (behind text : List Char) : Option Hit :=
  if p.startsWord && (behind.head?.map Text.isWord).getD false then none else p.read text

/-- The occurrences in a text, given what stands behind it. -/
def occurrencesFrom (p : Pattern) (behind text : List Char) : List Occurrence :=
  match text with
  | [] => []
  | c :: cs =>
    match p.readAt behind (c :: cs) with
    | none => occurrencesFrom p (c :: behind) cs
    | some r =>
      if r.rest.length < (c :: cs).length then
        let matched := (c :: cs).take ((c :: cs).length - r.rest.length)
        ⟨behind, matched, r.captured, r.rest⟩ :: occurrencesFrom p (matched.reverse ++ behind) r.rest
      else occurrencesFrom p (c :: behind) cs
termination_by text.length
decreasing_by
  · simp
  · assumption
  · simp

def occurrences (p : Pattern) (text : List Char) : List Occurrence := p.occurrencesFrom [] text

def first? (p : Pattern) (text : List Char) : Option Occurrence := (p.occurrences text).head?

/-- A text with new texts in place of the occurrences. -/
def replaceAll (p : Pattern) (new : Occurrence → List Char) (text : List Char) : List Char :=
  go (p.occurrences text) 0
where
  /-- `done` characters at the start have been dealt with. -/
  go : List Occurrence → Nat → List Char
  | [], done => text.drop done
  | o :: os, done =>
    let start := o.behind.length
    (text.drop done).take (start - done) ++ new o ++ go os (start + o.matched.length)

/-! ## Parts of patterns -/

/-- What follows a given text. -/
def literal : List Char → List Char → Option (List Char)
  | [], text => some text
  | _ :: _, [] => none
  | w :: ws, c :: cs => if c = w then literal ws cs else none

def word (w : String) (text : List Char) : Option (List Char) := literal w.toList text

/-- What follows blanks, if any. -/
def blanks (text : List Char) : List Char := text.dropWhile Text.isBlank

/-- What follows at least one blank. -/
def someBlanks : List Char → Option (List Char)
  | [] => none
  | c :: cs => if Text.isBlank c then some (blanks cs) else none

/-- A whole word and what follows it. -/
def someWord (text : List Char) : Option (List Char × List Char) :=
  match text.takeWhile Text.isWord with
  | [] => none
  | w => some (w, text.dropWhile Text.isWord)

/-- What follows a mark, with blanks before it. -/
def mark (m : String) (text : List Char) : Option (List Char) := word m (blanks text)

end Pattern

end DefectScan
