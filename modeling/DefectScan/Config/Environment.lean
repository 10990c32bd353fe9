import DefectScan.Config.Value
import DefectScan.Decimal.Digits
import DefectScan.Decimal.Dyadic
import DefectScan.Text.Blank
import DefectScan.Toml.Quoted

/-!
# Settings in the environment

A variable whose name starts with `CSCOUT_` sets what the rest of its name says, with two underscores
between the names of tables. Its value is a boolean, a number, a string in double quotes, a list in
brackets or a table in braces; anything else is a string as it stands.
-/

namespace DefectScan.Environment

open Decimal (isDigit digitsValue splitSign)
open ConfigValue (nest)

/-! ## Values -/

def isSpace (c : Char) : Bool := [' ', '\t', '\n', '\r', '\x0c'].contains c

def skipSpaces (text : List Char) : List Char := text.dropWhile isSpace

/-- A character that ends a word. -/
def isSeparator (c : Char) : Bool := [',', '\x7b', '\x7d', '[', ']'].contains c

/-- A whole number within the bounds of 64 bits, with or without sign. -/
def integer? (word : List Char) : Option Int :=
  let (negative, ds) := splitSign word
  let n : Int := digitsValue ds
  if ds.isEmpty || !ds.all isDigit then none
  else if word.head? = some '-' then if n ≤ Nat.pow 2 63 then some (-n) else none
  else if negative || Nat.pow 2 64 ≤ n then none
  else some n

/-- The exponent at the end of a real number. -/
def exponent? : List Char → Option Int
  | [] => some 0
  | c :: rest =>
    let (negative, ds) := splitSign rest
    if (c = 'e' || c = 'E') && !ds.isEmpty && ds.all isDigit then
      some (if negative then -digitsValue ds else digitsValue ds)
    else none

/-- A number with a point. -/
def real? (word : List Char) : Option Float := do
  let (negative, body) := splitSign word
  let whole := body.takeWhile isDigit
  match body.dropWhile isDigit with
  | '.' :: rest =>
    let places := rest.takeWhile isDigit
    let exponent ← exponent? (rest.dropWhile isDigit)
    if whole.isEmpty && places.isEmpty then none
    return Decimal.toFloat negative ⟨digitsValue (whole ++ places), exponent - places.length⟩
  | _ => none

def word (text : List Char) : ConfigValue :=
  match real? text with
  | some x => .real x
  | none =>
    match integer? text with
    | some n => .int n
    | none => .str (String.ofList text)

/-- The text in double quotes, with its escapes, and what is behind. -/
def quoted? : Nat → List Char → Option (List Char × List Char)
  | 0, _ => none
  | fuel + 1, text =>
    match text with
    | [] => none
    | '"' :: rest => some ([], rest)
    | '\\' :: rest => do
      let (c, rest) ← Toml.escape? rest
      return Toml.cons c (← quoted? fuel rest)
    | c :: rest => (quoted? fuel rest).map (Toml.cons c)

def isKeyChar (c : Char) : Bool :=
  isDigit c || ('a' ≤ c && c ≤ 'z') || ('A' ≤ c && c ≤ 'Z') || c = '_' || c = '-'

def key? (text : List Char) : Option (String × List Char) :=
  match text with
  | '"' :: rest => (quoted? (rest.length + 1) rest).map fun (s, rest) => (String.ofList s, rest)
  | _ =>
    let name := text.takeWhile isKeyChar
    if name.isEmpty then none else some (String.ofList name, text.dropWhile isKeyChar)

/-- What is behind a word, if it stands there. -/
def wordThen? (w : String) (text : List Char) : Option (List Char) :=
  if w.toList.isPrefixOf text then some (text.drop w.length) else none

mutual
def value? : Nat → List Char → Option (ConfigValue × List Char)
  | 0, _ => none
  | fuel + 1, text => do
    let text := skipSpaces text
    let (v, rest) ← match wordThen? "true" text, wordThen? "false" text with
      | some rest, _ => pure (.bool true, rest)
      | none, some rest => pure (.bool false, rest)
      | none, none =>
        match text with
        | '\x7b' :: rest => (members? fuel rest).map fun (ms, rest) => (.table ms, rest)
        | '[' :: rest => (items? fuel rest).map fun (vs, rest) => (.list vs, rest)
        | '"' :: rest =>
          (quoted? (rest.length + 1) rest).map fun (s, rest) => (.str (String.ofList s), rest)
        | _ =>
          some (word (Text.trim (text.takeWhile fun c => !isSeparator c)),
            text.dropWhile fun c => !isSeparator c)
    return (v, skipSpaces rest)

/-- The items of a list, behind its opening bracket or a comma. -/
def items? : Nat → List Char → Option (List ConfigValue × List Char)
  | 0, _ => none
  | fuel + 1, text =>
    match text with
    | ']' :: rest => some ([], rest)
    | _ => do
      let (v, rest) ← value? fuel text
      match rest with
      | ',' :: rest =>
        let (vs, rest) ← items? fuel rest
        return (v :: vs, rest)
      | ']' :: rest => return ([v], rest)
      | _ => none

/-- The members of a table, behind its opening brace or a comma. -/
def members? : Nat → List Char → Option (List (String × ConfigValue) × List Char)
  | 0, _ => none
  | fuel + 1, text =>
    match text with
    | '\x7d' :: rest => some ([], rest)
    | _ => do
      let (key, rest) ← key? (skipSpaces text)
      match skipSpaces rest with
      | '=' :: rest =>
        let (v, rest) ← value? fuel rest
        match rest with
        | ',' :: rest =>
          let (ms, rest) ← members? fuel rest
          return ((if ms.any (·.1 = key) then ms else (key, v) :: ms), rest)
        | '\x7d' :: rest => return ([(key, v)], rest)
        | _ => none
      | _ => none
end

/-- The value of a variable. -/
def valueOf (text : String) : ConfigValue :=
  let cs := text.toList
  match value? (cs.length + 1) cs with
  | some (v, []) => v
  | _ => .str text

/-! ## Names -/

/-- What the names of variables start with, in small letters. -/
def start : String := "cscout_"

def lowerAscii (c : Char) : Char := if 'A' ≤ c && c ≤ 'Z' then Char.ofNat (c.toNat + 32) else c

/-- The parts between dots, where two underscores are a dot too. -/
def splitName : List Char → List (List Char)
  | [] => [[]]
  | '_' :: '_' :: rest => [] :: splitName rest
  | c :: rest =>
    if c = '.' then [] :: splitName rest
    else
      match splitName rest with
      | [] => [[c]]
      | w :: ws => (c :: w) :: ws

/-- The path that the name of a variable stands for. -/
def pathOf? (name : String) : Option (List String) :=
  let cs := name.toList.map lowerAscii
  if start.toList.isPrefixOf cs then
    let parts := splitName (cs.drop start.length)
    if parts.any List.isEmpty then none else some (parts.map String.ofList)
  else none

/-- What the variables say; where two set the same, the later one counts. -/
def layer (assignments : List (String × String)) : ConfigValue :=
  assignments.foldl
    (fun low (name, text) =>
      match pathOf? name with
      | some path => low.overlay (nest (valueOf text) path)
      | none => low)
    (.table [])

end DefectScan.Environment
