import DefectScan.Text.Alphanumeric
import DefectScan.Text.Blank

/-!
# Files of variables

Variables may stand in a file, each on a line as `NAME=value`, with `export` before it or not. A value
may be quoted, and then go over several lines; outside of single quotes a backslash escapes a
character and a dollar sign puts in another variable. What is behind a line that cannot be read does
not count.
-/

namespace DefectScan.DotEnv

abbrev Variables := List (String × String)

/-! ## Lines -/

/-- Where reading stands at some place of a line. -/
inductive Mode
  | plain
  | blank
  | escaped
  | weak
  | weakEscaped
  | strong
  | strongEscaped
deriving DecidableEq, Repr

def opening (c : Char) (other : Mode) : Mode :=
  if c = '\\' then .escaped else if c = '"' then .weak else if c = '\x27' then .strong else other

/-- Goes over one character; nothing at the start of a comment. -/
def advance (mode : Mode) (c : Char) : Option Mode :=
  match mode with
  | .blank => if c = '#' then none else some (opening c .plain)
  | .plain =>
    if Text.isBlank c && c ≠ '\n' && c ≠ '\r' then some .blank else some (opening c .plain)
  | .escaped => some .plain
  | .weak => some (if c = '\\' then .weakEscaped else if c = '"' then .plain else .weak)
  | .weakEscaped => some .weak
  | .strong => some (if c = '\\' then .strongEscaped else if c = '\x27' then .plain else .strong)
  | .strongEscaped => some .strong

/-- Splits off the next line, with those that it goes on to; nothing if it has no end. -/
def splitLine (mode : Mode) : List Char → Option (List Char × List Char)
  | [] => if mode = .plain then some ([], []) else none
  | c :: cs =>
    match advance mode c with
    | none => some ([], (cs.dropWhile (· ≠ '\n')).drop 1)
    | some next =>
      if c = '\n' && next = .plain then some ([], cs)
      else (splitLine next cs).map fun (line, rest) => (c :: line, rest)

/-! ## Values -/

inductive Quote
  | none
  | weak
  | strong
deriving DecidableEq, Repr

/-- A variable that is being put in. -/
inductive Reference
  | none
  /-- A dollar sign and a name. -/
  | open (name : List Char)
  /-- A name in braces. -/
  | braced (name : List Char)

structure State where
  quote : Quote := .none
  escaped : Bool := false
  /-- The value has ended, and only a comment may follow. -/
  ended : Bool := false
  reference : Reference := .none
  /-- The value so far, last character first. -/
  output : List Char := []

def lookUp (known : Variables) (name : List Char) : List Char :=
  ((known.lookup (String.ofList name)).getD "").toList

def State.put (s : State) (cs : List Char) : State := { s with output := cs.reverse ++ s.output }

def escapeOf? (c : Char) : Option Char :=
  if c = 'n' then some '\n' else if ['\\', '"', '\x27', '$', ' '].contains c then some c else none

/-- A character that stands for itself or changes the quotes. -/
def plainStep (s : State) (c : Char) : State :=
  match s.quote with
  | .weak =>
    if c = '"' then { s with quote := .none }
    else if c = '\\' then { s with escaped := true }
    else s.put [c]
  | _ =>
    if c = '\x27' then { s with quote := .strong }
    else if c = '"' then { s with quote := .weak }
    else if c = '\\' then { s with escaped := true }
    else if c = ' ' || c = '\t' then { s with ended := true }
    else s.put [c]

/-- Reads one character; the flag says that the value ends here. -/
def step (known : Variables) (s : State) (c : Char) : Option (State × Bool) :=
  if s.ended then
    if c = ' ' || c = '\t' then some (s, false) else if c = '#' then some (s, true) else none
  else if s.escaped then (escapeOf? c).map fun x => ({ s.put [x] with escaped := false }, false)
  else if s.quote = .strong then
    some (if c = '\x27' then { s with quote := .none } else s.put [c], false)
  else
    match s.reference with
    | .open name =>
      if Text.isAlphanumeric c then some ({ s with reference := .open (name ++ [c]) }, false)
      else if c = '\x7b' && name.isEmpty then some ({ s with reference := .braced [] }, false)
      else
        let s := s.put (lookUp known name)
        if c = '$' then some ({ s with reference := .open [] }, false)
        else some ({ s.put [c] with reference := .none }, false)
    | .braced name =>
      if c = '\x7d' then some ({ s.put (lookUp known name) with reference := .none }, false)
      else some ({ s with reference := .braced (name ++ [c]) }, false)
    | .none =>
      if c = '$' then some ({ s with reference := .open [] }, false)
      else some (plainStep s c, false)

def finish? (known : Variables) (s : State) : Option (List Char) :=
  match s.quote, s.reference with
  | .none, .none => some s.output.reverse
  | .none, .open name => some (s.put (lookUp known name)).output.reverse
  | _, _ => none

def valueFrom? (known : Variables) (s : State) : List Char → Option (List Char)
  | [] => finish? known s
  | c :: cs =>
    match step known s c with
    | none => none
    | some (s, true) => finish? known s
    | some (s, false) => valueFrom? known s cs

/-! ## Variables -/

def isNameStart (c : Char) : Bool :=
  ('a' ≤ c && c ≤ 'z') || ('A' ≤ c && c ≤ 'Z') || c = '_'

def isNameChar (c : Char) : Bool := isNameStart c || ('0' ≤ c && c ≤ '9') || c = '.'

def name? (line : List Char) : Option (List Char × List Char) :=
  match line with
  | c :: _ =>
    if isNameStart c then some (line.takeWhile isNameChar, Text.trimLeft (line.dropWhile isNameChar))
    else none
  | [] => none

def equals? : List Char → Option (List Char)
  | '=' :: rest => some (Text.trimLeft rest)
  | _ => none

/-- The name on a line, and the text of its value. -/
def assignment? (line : List Char) : Option (List Char × List Char) := do
  let (name, rest) ← name? line
  match equals? rest with
  | some value => return (name, value)
  | none =>
    if name = "export".toList then
      let (name, rest) ← name? rest
      return (name, ← equals? rest)
    else none

def isIdle (line : List Char) : Bool := line.isEmpty || line.head? = some '#'

/-- Adds the variable of a line; one that is known stays as it is. -/
def addLine (known : Variables) (line : List Char) : Option Variables := do
  let line := Text.trim line
  if isIdle line then return known
  let (name, text) ← assignment? line
  let value ← if isIdle text then pure [] else valueFrom? known {} text
  let name := String.ofList name
  return if known.any (·.1 = name) then known else known ++ [(name, String.ofList value)]

def addLines : Nat → Variables → List Char → Variables
  | 0, known, _ => known
  | _ + 1, known, [] => known
  | fuel + 1, known, text =>
    let comment := (Text.trimLeft (text.takeWhile (· ≠ '\n'))).head? = some '#'
    let split := if comment then some ([], (text.dropWhile (· ≠ '\n')).drop 1)
      else splitLine .plain text
    match split with
    | none => known
    | some (line, rest) =>
      match addLine known line with
      | some known => addLines fuel known rest
      | none => known

/-- Adds the variables of a file to those that are known. -/
def extend (known : Variables) (text : String) : Variables :=
  addLines (text.length + 1) known text.toList

end DefectScan.DotEnv
