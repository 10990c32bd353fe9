import DefectScan.Decimal.Digits

/-!
# Strings in TOML

A string stands in double quotes, with escapes, or in single quotes, without. Three quotes open a
string that may go over several lines; a line feed right behind them is dropped. Every reader takes
the text behind the opening quotes and gives the string and the text behind the closing ones.
-/

namespace DefectScan.Toml

open Decimal (radixValue?)

/-- A control character that may not stand in a text. -/
def isControl (c : Char) : Bool := (c.toNat < 0x20 && c ≠ '\t') || c.toNat = 0x7f

/-- What is behind the end of a line. -/
def newline? : List Char → Option (List Char)
  | '\n' :: rest => some rest
  | '\r' :: '\n' :: rest => some rest
  | _ => none

def dropNewline (text : List Char) : List Char := (newline? text).getD text

/-- The character with a number, if it is one. -/
def charOf? (n : Nat) : Option Char := if n.isValidChar then some (Char.ofNat n) else none

/-- The character that a short escape stands for. -/
def shortEscape? (c : Char) : Option Char :=
  match c with
  | 'b' => some '\x08'
  | 't' => some '\t'
  | 'n' => some '\n'
  | 'f' => some '\x0c'
  | 'r' => some '\r'
  | '"' => some '"'
  | '\\' => some '\\'
  | _ => none

/-- The character of an escape, and the text behind it. -/
def escape? : List Char → Option (Char × List Char)
  | 'u' :: rest => do
    let n ← radixValue? 16 (rest.take 4) 0
    if rest.length < 4 then none else return (← charOf? n, rest.drop 4)
  | 'U' :: rest => do
    let n ← radixValue? 16 (rest.take 8) 0
    if rest.length < 8 then none else return (← charOf? n, rest.drop 8)
  | c :: rest => (shortEscape? c).map fun x => (x, rest)
  | [] => none

def cons (c : Char) (r : List Char × List Char) : List Char × List Char := (c :: r.1, r.2)

/-- A string up to the next double quote. -/
def basic? : Nat → List Char → Option (List Char × List Char)
  | 0, _ => none
  | fuel + 1, text =>
    match text with
    | [] => none
    | '"' :: rest => some ([], rest)
    | '\\' :: rest => do
      let (c, rest) ← escape? rest
      return cons c (← basic? fuel rest)
    | c :: rest => if isControl c then none else (basic? fuel rest).map (cons c)

/-- A string up to the next single quote. -/
def literal? : List Char → Option (List Char × List Char)
  | [] => none
  | c :: rest =>
    if c = '\x27' then some ([], rest)
    else if isControl c then none
    else (literal? rest).map (cons c)

def quotes (q : Char) (text : List Char) : Nat := (text.takeWhile (· = q)).length

/-- The end of a string in three quotes: up to two more quotes before them belong to it. -/
def closing? (q : Char) (text : List Char) : Option (List Char × List Char) :=
  let n := quotes q text
  if n < 3 then none
  else
    let inner := min (n - 3) 2
    some (List.replicate inner q, text.drop (inner + 3))

def isSpace (c : Char) : Bool := c = ' ' || c = '\t'

/-- What is behind the blanks and line ends that a backslash at the end of a line removes. -/
def continuation? (text : List Char) : Option (List Char) :=
  (newline? (text.dropWhile isSpace)).map fun rest =>
    rest.dropWhile fun c => isSpace c || c = '\n' || c = '\r'

def multiBasic? : Nat → List Char → Option (List Char × List Char)
  | 0, _ => none
  | fuel + 1, text =>
    match closing? '"' text with
    | some r => some r
    | none =>
      match newline? text with
      | some rest => (multiBasic? fuel rest).map (cons '\n')
      | none =>
        match text with
        | [] => none
        | '\\' :: rest =>
          match continuation? rest with
          | some rest => multiBasic? fuel rest
          | none => do
            let (c, rest) ← escape? rest
            return cons c (← multiBasic? fuel rest)
        | c :: rest => if isControl c then none else (multiBasic? fuel rest).map (cons c)

def multiLiteral? : Nat → List Char → Option (List Char × List Char)
  | 0, _ => none
  | fuel + 1, text =>
    match closing? '\x27' text with
    | some r => some r
    | none =>
      match newline? text with
      | some rest => (multiLiteral? fuel rest).map (cons '\n')
      | none =>
        match text with
        | [] => none
        | c :: rest => if isControl c then none else (multiLiteral? fuel rest).map (cons c)

/-- A string of any kind. -/
def string? (text : List Char) : Option (List Char × List Char) :=
  match text with
  | '"' :: '"' :: '"' :: rest => multiBasic? (rest.length + 1) (dropNewline rest)
  | '"' :: rest => basic? (rest.length + 1) rest
  | '\x27' :: '\x27' :: '\x27' :: rest => multiLiteral? (rest.length + 1) (dropNewline rest)
  | '\x27' :: rest => literal? rest
  | _ => none

end DefectScan.Toml
