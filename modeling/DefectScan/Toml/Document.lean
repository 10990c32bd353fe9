import DefectScan.Toml.Quoted
import DefectScan.Toml.Scalar
import DefectScan.Toml.Table

/-!
# TOML documents

A document is a sequence of lines: headers of tables, keys with their values, comments and blank
lines. Reading gives the table of the whole document, or nothing if a rule is broken.
-/

namespace DefectScan.Toml

def skipSpaces (text : List Char) : List Char := text.dropWhile isSpace

/-- What is behind a comment, at the end of its line. -/
def skipComment (text : List Char) : Option (List Char) :=
  match text with
  | '#' :: rest =>
    let rest := rest.dropWhile fun c => !isControl c
    if rest.isEmpty || (newline? rest).isSome then some rest else none
  | _ => some text

/-- Skips blanks, comments and line ends. -/
def skipLines : Nat → List Char → Option (List Char)
  | 0, text => some text
  | fuel + 1, text => do
    let rest ← skipComment (skipSpaces text)
    match newline? rest with
    | some rest => skipLines fuel rest
    | none => return rest

/-- What is behind the end of a line. -/
def endLine (text : List Char) : Option (List Char) := do
  let rest ← skipComment (skipSpaces text)
  if rest.isEmpty then return [] else newline? rest

/-! ## Keys -/

def isBareKeyChar (c : Char) : Bool :=
  Decimal.isDigit c || ('a' ≤ c && c ≤ 'z') || ('A' ≤ c && c ≤ 'Z') || c = '_' || c = '-'

def simpleKey? (text : List Char) : Option (String × List Char) :=
  match text with
  | '"' :: rest => (basic? (rest.length + 1) rest).map fun (s, rest) => (String.ofList s, rest)
  | '\x27' :: rest => (literal? rest).map fun (s, rest) => (String.ofList s, rest)
  | _ =>
    let word := text.takeWhile isBareKeyChar
    if word.isEmpty then none else some (String.ofList word, text.dropWhile isBareKeyChar)

/-- A key with dots: the names before the last dot, the name behind it, and what follows. -/
def key? : Nat → List Char → Option (List String × String × List Char)
  | 0, _ => none
  | fuel + 1, text => do
    let (name, rest) ← simpleKey? (skipSpaces text)
    match skipSpaces rest with
    | '.' :: rest =>
      let (path, last, rest) ← key? fuel rest
      return (name :: path, last, rest)
    | rest => return ([], name, rest)

/-! ## Values -/

mutual
def value? : Nat → List Char → Option (ConfigValue × List Char)
  | 0, _ => none
  | fuel + 1, text =>
    match text with
    | '[' :: rest => do
      let (items, rest) ← items? fuel rest
      return (.list items, rest)
    | '\x7b' :: rest =>
      match skipSpaces rest with
      | '\x7d' :: rest => some (.table [], rest)
      | rest => do
        let (es, rest) ← pairs? fuel [] rest
        return (.table (closeEntries es), rest)
    | c :: _ =>
      if c = '"' || c = '\x27' then
        (string? text).map fun (s, rest) => (.str (String.ofList s), rest)
      else
        let (word, rest) := splitWord text
        (wordValue? word).map fun v => (v, rest)
    | [] => none

/-- The items of an array, behind its opening bracket or a comma. -/
def items? : Nat → List Char → Option (List ConfigValue × List Char)
  | 0, _ => none
  | fuel + 1, text => do
    match ← skipLines (text.length + 1) text with
    | ']' :: rest => return ([], rest)
    | rest =>
      let (v, rest) ← value? fuel rest
      match ← skipLines (rest.length + 1) rest with
      | ',' :: rest =>
        let (vs, rest) ← items? fuel rest
        return (v :: vs, rest)
      | ']' :: rest => return ([v], rest)
      | _ => none

/-- The pairs of a table on one line. -/
def pairs? : Nat → Entries → List Char → Option (Entries × List Char)
  | 0, _, _ => none
  | fuel + 1, es, text => do
    let (path, key, rest) ← key? (text.length + 1) text
    match rest with
    | '=' :: rest =>
      let (v, rest) ← value? fuel (skipSpaces rest)
      let es ← es.addValue path key v
      match skipSpaces rest with
      | ',' :: rest => pairs? fuel es rest
      | '\x7d' :: rest => return (es, rest)
      | _ => none
    | _ => none
end

/-! ## Lines -/

/-- The lines of a document; `header` is the path of the open table. -/
def lines? : Nat → List String → Entries → List Char → Option Entries
  | 0, _, _, _ => none
  | fuel + 1, header, es, text => do
    match ← skipLines (text.length + 1) text with
    | [] => return es
    | '[' :: '[' :: rest =>
      let (path, key, rest) ← key? (rest.length + 1) rest
      match rest with
      | ']' :: ']' :: rest => lines? fuel (path ++ [key]) (← es.openNext path key) (← endLine rest)
      | _ => none
    | '[' :: rest =>
      let (path, key, rest) ← key? (rest.length + 1) rest
      match rest with
      | ']' :: rest => lines? fuel (path ++ [key]) (← es.openTable path key) (← endLine rest)
      | _ => none
    | rest =>
      let (path, key, rest) ← key? (rest.length + 1) rest
      match rest with
      | '=' :: rest =>
        let rest := skipSpaces rest
        let (v, rest) ← value? (rest.length + 1) rest
        lines? fuel header (← es.addUnder header path key v) (← endLine rest)
      | _ => none

/-- Reads a document. A byte order mark at its start is skipped. -/
def read (text : List Char) : Option ConfigValue :=
  let text := match text with
    | '\ufeff' :: rest => rest
    | _ => text
  (lines? (text.length + 1) [] [] text).map fun es => .table (closeEntries es)

end DefectScan.Toml
