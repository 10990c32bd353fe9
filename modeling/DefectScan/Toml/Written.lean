import DefectScan.Decimal.Format
import DefectScan.Settings

/-!
# Settings as TOML

Each group of settings is a table, in order. A string with quotes or backslashes stands in single
quotes if that can be, and one with line feeds goes over several lines.
-/

namespace DefectScan.Toml

/-! ## Strings -/

def hexWidth : Nat := 4

/-- A number in hexadecimal digits, in capital letters. -/
def hexText (width n : Nat) : List Char :=
  let ds := Nat.toDigits 16 n
  (List.replicate (width - ds.length) '0' ++ ds).map Char.toUpper

/-- How a character is written in double quotes; a line feed may stay in a string over lines. -/
def escape (multiline : Bool) (c : Char) : List Char :=
  if c = '\x08' then ['\\', 'b']
  else if c = '\t' then ['\\', 't']
  else if c = '\n' then if multiline then ['\n'] else ['\\', 'n']
  else if c = '\x0c' then ['\\', 'f']
  else if c = '\r' then ['\\', 'r']
  else if c = '"' then ['\\', '"']
  else if c = '\\' then ['\\', '\\']
  else if c.toNat < 0x20 || c.toNat = 0x7f then '\\' :: 'u' :: hexText hexWidth c.toNat
  else [c]

/-- The longest run of single quotes. -/
def longestQuotes : List Char → Nat → Nat
  | [], run => run
  | c :: cs, run => if c = '\x27' then longestQuotes cs (run + 1) else max run (longestQuotes cs 0)

/-- Whether a string is better written without escapes, and can be. -/
def isLiteral (cs : List Char) : Bool :=
  (cs.contains '"' || cs.contains '\\')
    && cs.all (fun c => (0x20 ≤ c.toNat && c.toNat ≠ 0x7f) || c = '\t' || c = '\n')
    && longestQuotes cs 0 < 3 && cs.getLast? ≠ some '\x27'

def stringText (s : String) : List Char :=
  let cs := s.toList
  let multiline := cs.contains '\n'
  if isLiteral cs then
    if multiline then "'''\n".toList ++ cs ++ "'''".toList
    else if cs.contains '\x27' then "'''".toList ++ cs ++ "'''".toList
    else '\x27' :: (cs ++ ['\x27'])
  else
    let body := cs.flatMap (escape multiline)
    if multiline then "\"\"\"\n".toList ++ body ++ "\"\"\"".toList else '"' :: (body ++ ['"'])

/-! ## Numbers -/

/-- The largest whole number of a document. -/
def maxInteger : Nat := Nat.pow 2 63 - 1

def integerText? (n : Nat) : Option (List Char) :=
  if n ≤ maxInteger then some (toString n).toList else none

/-- A real number without exponent, with a point in any case. -/
def realText (x : Float) : List Char :=
  if x.isNaN then "nan".toList
  else
    let text := (Decimal.plain x).toList
    if x.isInf || text.contains '.' then text else text ++ ['.', '0']

def boolText (b : Bool) : List Char := (if b then "true" else "false").toList

/-! ## Settings -/

def lineText (name : String) (value : List Char) : List Char :=
  name.toList ++ " = ".toList ++ value ++ ['\n']

def tableText (name : String) (lines : List (String × List Char)) : List Char :=
  '[' :: (name.toList ++ [']', '\n'] ++ lines.flatMap fun (n, v) => lineText n v)

/-- Writes settings, unless a number is too large for the format. -/
def settingsText? (s : Settings) : Option (List Char) := do
  let maxFeatures ← integerText? s.classifier.maxFeatures
  let epochs ← integerText? s.classifier.epochs
  return tableText "detection"
      [("lexical", boolText s.detection.lexical), ("structural", boolText s.detection.structural),
        ("classifier", boolText s.detection.classifier), ("parallel", boolText s.detection.parallel)]
    ++ '\n' :: tableText "classifier"
      [("max_features", maxFeatures), ("epochs", epochs),
        ("learning_rate", realText s.classifier.learningRate),
        ("l2_penalty", realText s.classifier.l2Penalty),
        ("threshold", realText s.classifier.threshold),
        ("model_path", stringText s.classifier.modelPath)]
    ++ '\n' :: tableText "storage"
      [("enabled", boolText s.storage.enabled), ("database_path", stringText s.storage.databasePath)]

end DefectScan.Toml
