import DefectScan.Lexical
import DefectScan.Text.Lines

/-!
# Proposed fixes

A fix is proposed from the line of a finding alone. It replaces the line or adds one behind it, and
nothing checks that the result is right. Findings on the file as a whole, on lines that do not exist
and of categories without a rule get no fix.
-/

namespace DefectScan.Proposal

open Pattern

/-! ## Patterns -/

/-- `variable = malloc` or `variable = (type) malloc`; the variable is captured. -/
def assignedAllocation : Pattern where
  startsWord := false
  read text := do
    let (variable_, rest) ← someWord text
    let value ← mark "=" rest
    let value := blanks value
    let cast := do
      let inside ← word "(" value
      word ")" (inside.dropWhile (· ≠ ')'))
    let rest ← word "malloc" (match cast with | some r => blanks r | none => value)
    return ⟨[variable_], rest⟩

/-- `variable ->`; the variable is captured. -/
def dereference : Pattern where
  startsWord := false
  read text := do
    let (variable_, rest) ← someWord text
    let rest ← mark "->" rest
    return ⟨[variable_], rest⟩

/-- An argument without the blanks around it; of blanks alone the last is the argument. -/
def argument (text : List Char) : Option (List Char) :=
  match Text.trim text with
  | [] => text.getLast?.map fun c => [c]
  | t => some t

/-- A text with single pairs of parentheses in it, up to the next closing parenthesis. -/
def balanced : List Char → Option (List Char × List Char)
  | [] => none
  | c :: cs =>
    if c = ')' then some ([], c :: cs)
    else if c = '(' then (inner cs).map fun (t, rest) => (c :: t, rest)
    else (balanced cs).map fun (t, rest) => (c :: t, rest)
where
  /-- The same, inside of a pair. -/
  inner : List Char → Option (List Char × List Char)
  | [] => none
  | c :: cs =>
    if c = '(' then none
    else if c = ')' then (balanced cs).map fun (t, rest) => (c :: t, rest)
    else (inner cs).map fun (t, rest) => (c :: t, rest)

/-- `f(destination, source)`; both arguments are captured. -/
def copyCall (f : String) : Pattern where
  startsWord := true
  read text := do
    let text ← mark "(" (← word f text)
    let isPlain (c : Char) := c ≠ ',' && c ≠ '(' && c ≠ ')'
    let destination ← argument (text.takeWhile isPlain)
    let (source, rest) ← balanced (← word "," (text.dropWhile isPlain))
    let source ← argument source
    return ⟨[destination, source], rest.drop 1⟩

/-- `gets(buffer)`; the buffer is captured. -/
def lineRead : Pattern where
  startsWord := true
  read text := do
    let text ← mark "(" (← word "gets" text)
    let isPlain (c : Char) := c ≠ '(' && c ≠ ')'
    let buffer ← argument (text.takeWhile isPlain)
    let rest ← word ")" (text.dropWhile isPlain)
    return ⟨[buffer], rest⟩

/-! ## Changes -/

structure Change where
  text : List Char
  edit : Edit
  note : String

/-- The blanks and tabs at the start of a line. -/
def indentation (line : List Char) : List Char := line.takeWhile fun c => c = ' ' || c = '\t'

def captured (o : Occurrence) (i : Nat) : List Char := o.captured.getD i []

def release (line : List Char) : Option Change :=
  (assignedAllocation.first? line).map fun o =>
    { text := indentation line ++ "free(".toList ++ captured o 0 ++ ");".toList
      edit := .insertAfter
      note := "Release the allocation once it is no longer needed" }

def boundedCopy (f g bound note : String) (size : List Char → List Char) (line : List Char) :
    Option Change :=
  ((copyCall f).first? line).map fun o =>
    let destination := captured o 0
    let call := g.toList ++ '(' :: destination ++ ", ".toList ++ captured o 1 ++ ", ".toList
      ++ size destination ++ bound.toList
    { text := o.replace call, edit := .replaceLine, note }

def sizeOf (destination : List Char) : List Char := "sizeof(".toList ++ destination ++ [')']

def spaceLeft (destination : List Char) : List Char :=
  sizeOf destination ++ " - strlen(".toList ++ destination ++ [')']

/-- A bound for the first copy without one, else for the first concatenation, else for the first
line that is read. -/
def bound (line : List Char) : Option Change :=
  (boundedCopy "strcpy" "strncpy" " - 1)" "Bound the copy by the destination size" sizeOf
      line).orElse fun _ =>
  (boundedCopy "strcat" "strncat" " - 1)"
      "Bound the concatenation by the space left in the destination" spaceLeft line).orElse fun _ =>
  (lineRead.first? line).map fun o =>
    let buffer := captured o 0
    { text := o.replace ("fgets(".toList ++ buffer ++ ", ".toList ++ sizeOf buffer
        ++ ", stdin)".toList)
      edit := .replaceLine
      note := "Read with an explicit buffer size" }

def guard (line : List Char) : Option Change :=
  (dereference.first? line).map fun o =>
    let indent := indentation line
    { text := indent ++ "if (".toList ++ captured o 0 ++ " != NULL) \x7b\n".toList
        ++ indent ++ "    ".toList ++ Text.trim line ++ '\n' :: indent ++ "\x7d".toList
      edit := .replaceLine
      note := "Check the pointer against NULL before dereferencing" }

/-- All bare declarations of the line are given a value, so that findings that share a line share a
fix. -/
def initialise (line : List Char) : Option Change :=
  (Lexical.bareDeclaration.first? line).map fun _ =>
    { text := Lexical.bareDeclaration.replaceAll
        (fun o => "int ".toList ++ captured o 0 ++ " = 0;".toList) line
      edit := .replaceLine
      note := "Initialize the variable at its declaration" }

def conditional (line : List Char) : Option Change :=
  (Lexical.endlessWhile.first? line).map fun o =>
    { text := Text.trimRight (o.replace "while (condition)".toList)
        ++ " // supply a real exit condition".toList
      edit := .replaceLine
      note := "Replace the constant condition with a real exit condition" }

/-- The change of a line that mends a defect of a category. -/
def changeFor : Category → List Char → Option Change
  | .memoryLeak => release
  | .bufferOverflow => bound
  | .nullPointer => guard
  | .uninitializedVar => initialise
  | .infiniteLoop => conditional
  | .missingReturn | .syntaxError => fun _ => none

/-- The fix that is proposed for a category on a line of a text. -/
def fixAt (category : Category) (line : Nat) (text : String) : Option Fix := do
  let current ← Text.Lines.numbered? text.toList line
  let c ← changeFor category current
  return { category, line, currentText := String.ofList current
           replacementText := String.ofList c.text, edit := c.edit, note := c.note }

theorem fixAt_eq_some_iff {category : Category} {n : Nat} {text : String} {fix : Fix} :
    fixAt category n text = some fix ↔ ∃ line c, Text.Lines.numbered? text.toList n = some line ∧
      changeFor category line = some c ∧
      fix = { category, line := n, currentText := String.ofList line
              replacementText := String.ofList c.text, edit := c.edit, note := c.note } := by
  simp only [fixAt, Option.bind_eq_bind, Option.bind_eq_some_iff]
  constructor
  · rintro ⟨line, hline, c, hchange, hfix⟩
    exact ⟨line, c, hline, hchange, (Option.some.inj hfix).symm⟩
  · rintro ⟨line, c, hline, hchange, rfl⟩
    exact ⟨line, hline, c, hchange, rfl⟩

/-- The fix that is proposed for a finding in a text. -/
def fixFor (f : Finding) (text : String) : Option Fix := fixAt f.category f.line text

end DefectScan.Proposal
