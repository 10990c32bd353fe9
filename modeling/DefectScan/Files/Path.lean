import DefectScan.Text.Lowercase

/-!
# Paths

A path is a text whose parts stand between slashes. Empty parts and dots are no components, except a
dot at the very start. Paths are compared by their components.
-/

namespace DefectScan.Path

/-- The parts between slashes. -/
def parts (p : String) : List String := (go p.toList).map String.ofList
where
  go : List Char → List (List Char)
  | [] => [[]]
  | c :: cs =>
    if c = '/' then [] :: go cs
    else
      match go cs with
      | [] => [[c]]
      | x :: xs => (c :: x) :: xs

def ofParts (ps : List String) : String := "/".intercalate ps

inductive Component
  | root
  | current
  | parent
  | normal (name : String)
deriving DecidableEq, Repr

/-- A part that is no component. -/
def isVoid (part : String) : Bool := part = "" || part = "."

def componentOf (part : String) : Component := if part = ".." then .parent else .normal part

def isAbsolute (p : String) : Bool := p.toList.head? = some '/'

def components (p : String) : List Component :=
  let ps := parts p
  let start := if isAbsolute p then [.root] else if ps.head? = some "." then [.current] else []
  start ++ (ps.filter (!isVoid ·)).map componentOf

/-- A path seen from another. -/
def join (base p : String) : String :=
  if isAbsolute p || base = "" then p
  else if base.toList.getLast? = some '/' then base ++ p
  else base ++ "/" ++ p

/-- The name at the end of a path. -/
def fileName? (p : String) : Option String :=
  match (components p).getLast? with
  | some (.normal name) => some name
  | _ => none

/-- A name split at its last dot; a dot at the start does not count. -/
def splitName (name : String) : String × Option String :=
  let cs := name.toList
  let tail := (cs.reverse.takeWhile (· ≠ '.')).reverse
  let head := cs.take (cs.length - tail.length - 1)
  if tail.length = cs.length || head.isEmpty then (name, none)
  else (String.ofList head, some (String.ofList tail))

def extension? (p : String) : Option String := (fileName? p).bind fun name => (splitName name).2

/-- The parts without those at the end that are no components. -/
def trimmedParts (p : String) : List String := ((parts p).reverse.dropWhile isVoid).reverse

/-- The path with another extension. -/
def withExtension (p extension : String) : String :=
  match fileName? p with
  | none => p
  | some name =>
    ofParts ((trimmedParts p).dropLast ++ [(splitName name).1 ++ "." ++ extension])

/-- The path without its last component. -/
def parent? (p : String) : Option String :=
  match (components p).getLast? with
  | none | some .root => none
  | some .current => some ""
  | some _ =>
    let above := (((trimmedParts p).dropLast).reverse.dropWhile isVoid).reverse
    if above.isEmpty then
      some (if isAbsolute p then "/" else if (parts p).head? = some "." then "." else "")
    else some (ofParts above)

/-- The parts that remain behind a number of components. -/
def dropComponents : Nat → List String → List String
  | _, [] => []
  | 0, ps => ps
  | n + 1, p :: ps => if isVoid p then dropComponents (n + 1) ps else dropComponents n ps

/-- The path as seen from a directory that it is in. -/
def stripPrefix? (p base : String) : Option String :=
  let own := components p
  let other := components base
  if other.isPrefixOf own then
    let named := other.countP fun
      | .root | .current => false
      | _ => true
    let rest := (dropComponents named (trimmedParts p)).dropWhile isVoid
    some (ofParts rest)
  else none

namespace Component

def rank : Component → Nat
  | root => 0
  | current => 1
  | parent => 2
  | normal _ => 3

def le : Component → Component → Bool
  | normal a, normal b => decide (a ≤ b)
  | a, b => a.rank ≤ b.rank

end Component

/-- The order of paths by components. -/
def le (a b : String) : Bool := go (components a) (components b)
where
  go : List Component → List Component → Bool
  | [], _ => true
  | _ :: _, [] => false
  | x :: xs, y :: ys => if x = y then go xs ys else x.le y

/-- The extensions of sources. -/
def sourceExtensions : List String := ["c", "h"]

/-- Whether a path has the extension of a C source or header, in small or capital letters. -/
def isSource (p : String) : Bool :=
  match extension? p with
  | some e => sourceExtensions.contains (String.ofList (Text.lowercase e.toList))
  | none => false

end DefectScan.Path
