import DefectScan.Config.Value

/-!
# Tables of a TOML document

A table comes into being by a header of its own, on the way to the table of another header, or by a
key with dots. Each table has one header at most; a table that has one is not extended by keys with
dots, and one that was made by keys with dots gets no header. Values are never extended.
-/

namespace DefectScan.Toml

/-- How a table came into being. -/
inductive Origin
  /-- By a header of its own. -/
  | stated
  /-- On the way to another table. -/
  | implied
  /-- By a key with dots. -/
  | dotted
deriving DecidableEq, Repr

inductive Item
  | value (v : ConfigValue)
  | table (entries : List (String × Item)) (origin : Origin)
  /-- Tables under one header, the last one open. -/
  | tables (before : List (List (String × Item))) (last : List (String × Item))

abbrev Entries := List (String × Item)

namespace Entries

/-- Sets an entry in its place, or behind the others. -/
def set (key : String) (x : Item) : Entries → Entries
  | [] => [(key, x)]
  | (k, y) :: rest => if k = key then (k, x) :: rest else (k, y) :: set key x rest

/-- Changes the table at the end of a path. Tables that are missing are made, by dots or on the way;
keys with dots do not go through a table that has a header. -/
def descend (byDots : Bool) (f : Origin → Entries → Option Entries) :
    List String → Origin → Entries → Option Entries
  | [], origin, es => f origin es
  | key :: path, _, es =>
    match es.lookup key with
    | none =>
      let origin := if byDots then .dotted else .implied
      (descend byDots f path origin []).map fun inner => es.set key (.table inner origin)
    | some (.value _) => none
    | some (.table inner origin) =>
      if byDots && origin = .stated then none
      else (descend byDots f path origin inner).map fun inner => es.set key (.table inner origin)
    | some (.tables before last) =>
      (descend byDots f path .stated last).map fun inner => es.set key (.tables before inner)

/-- Adds a value under a key with dots. -/
def addValue (path : List String) (key : String) (v : ConfigValue) (es : Entries) :
    Option Entries :=
  descend true
    (fun origin es =>
      if (!path.isEmpty && origin ≠ .dotted) || (es.lookup key).isSome then none
      else some (es.set key (.value v)))
    path .stated es

/-- Opens a table by a header. -/
def openTable (path : List String) (key : String) (es : Entries) : Option Entries :=
  descend false
    (fun _ es =>
      match es.lookup key with
      | none => some (es.set key (.table [] .stated))
      | some (.table inner .implied) => some (es.set key (.table inner .stated))
      | some _ => none)
    path .stated es

/-- Opens a further table under a header for several. -/
def openNext (path : List String) (key : String) (es : Entries) : Option Entries :=
  descend false
    (fun _ es =>
      match es.lookup key with
      | none => some (es.set key (.tables [] []))
      | some (.tables before last) => some (es.set key (.tables (before ++ [last]) []))
      | some _ => none)
    path .stated es

/-- Adds a value to the table of a header. -/
def addUnder (header path : List String) (key : String) (v : ConfigValue) (es : Entries) :
    Option Entries :=
  descend false (fun _ es => es.addValue path key v) header .stated es

end Entries

mutual
/-- What an item says. -/
def Item.close : Item → ConfigValue
  | .value v => v
  | .table entries _ => .table (closeEntries entries)
  | .tables before last => .list (closeTables before ++ [.table (closeEntries last)])

def closeEntries : List (String × Item) → List (String × ConfigValue)
  | [] => []
  | (k, x) :: rest => (k, x.close) :: closeEntries rest

def closeTables : List (List (String × Item)) → List ConfigValue
  | [] => []
  | es :: rest => .table (closeEntries es) :: closeTables rest
end

end DefectScan.Toml
