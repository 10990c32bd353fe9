/-!
# Layers of settings

What a file or the environment says about settings, before its types are known. A later layer goes
over an earlier one: tables are joined member by member, and anything else is replaced.
-/

namespace DefectScan

inductive ConfigValue
  | bool (b : Bool)
  | int (n : Int)
  | real (x : Float)
  | str (s : String)
  | list (items : List ConfigValue)
  | table (members : List (String × ConfigValue))

namespace ConfigValue

instance : Inhabited ConfigValue := ⟨table []⟩

/-- Sets a member of a table. -/
def setMember (key : String) (x : ConfigValue) :
    List (String × ConfigValue) → List (String × ConfigValue)
  | [] => [(key, x)]
  | (k, y) :: rest => if k = key then (k, x) :: rest else (k, y) :: setMember key x rest

mutual
/-- Puts a value over another. -/
def overlay (low : ConfigValue) : ConfigValue → ConfigValue
  | table high =>
    match low with
    | table members => table (overlayMembers members high)
    | _ => table high
  | high => high

def overlayMembers (low : List (String × ConfigValue)) :
    List (String × ConfigValue) → List (String × ConfigValue)
  | [] => low
  | (key, x) :: rest =>
    let joined := match low.lookup key with
      | some y => overlay y x
      | none => x
    overlayMembers (setMember key joined low) rest
end

/-- All layers, the first one lowest. -/
def stack (layers : List ConfigValue) : ConfigValue := layers.foldl overlay (table [])

/-- What stands at a path of names and positions. -/
def get? : List String → ConfigValue → Option ConfigValue
  | [], v => some v
  | name :: names, table members =>
    match members.lookup name with
    | some v => v.get? names
    | none => none
  | name :: names, list items =>
    match (items.zipIdx.find? fun (_, i) => toString i = name) with
    | some (v, _) => v.get? names
    | none => none
  | _ :: _, _ => none

/-- A value at the end of a path of names. -/
def nest (v : ConfigValue) : List String → ConfigValue
  | [] => v
  | name :: names => table [(name, nest v names)]

end ConfigValue

end DefectScan
