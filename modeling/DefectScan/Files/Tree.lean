import DefectScan.Files.Basic

/-!
# Trees of files

A file system in memory: directories with named entries, files with their content, and links with
the path they lead to. A path is followed name by name from the root; `..` leads to the directory
above the one that was reached, and a link is followed from where it stands.
-/

namespace DefectScan

inductive Entry
  | file (content : ByteArray)
  | link (target : String)
  | directory (entries : List (String × Entry))

instance : Inhabited Entry := ⟨.directory []⟩

namespace Entry

def kind : Entry → FileKind
  | file _ => .file
  | link _ => .link
  | directory _ => .directory

def isDirectory : Entry → Bool
  | directory _ => true
  | _ => false

/-- The entry at the end of a list of names. -/
def get? : List String → Entry → Option Entry
  | [], e => some e
  | name :: names, directory entries =>
    match entries.lookup name with
    | some e => e.get? names
    | none => none
  | _ :: _, _ => none

/-- Changes the entry of a name in a list; nothing removes it. -/
def alter (name : String) (f : Option Entry → Option Entry) :
    List (String × Entry) → List (String × Entry)
  | [] => (f none).toList.map fun e => (name, e)
  | (n, e) :: rest =>
    if n = name then (f (some e)).toList.map (fun e => (n, e)) ++ rest
    else (n, e) :: alter name f rest

/-- Changes the entry at the end of a list of names whose directories exist. -/
def update (f : Option Entry → Option Entry) : List String → Entry → Entry
  | [], e => (f (some e)).getD e
  | [name], directory entries => directory (alter name f entries)
  | name :: names, directory entries =>
    directory (alter name (fun e => e.map (update f names)) entries)
  | _ :: _, e => e

/-- Where a path leads. -/
inductive Place
  /-- There is an entry; these are the names that lead to it. -/
  | present (names : List String)
  /-- There is no such name in an existing directory. -/
  | absent (above : List String) (name : String)

/-- How many links are followed on one path. -/
def maxLinks : Nat := 40

/-- How many bytes a name has at most. -/
def maxName : Nat := 255

/-- How many bytes a path has at most. -/
def maxPath : Nat := 4095

/-- Follows the parts of a path from a directory up to a link, where `jump` goes on; `last` says
whether a link at the end is followed too. -/
def walk (root : Entry) (last : Bool) (jump : List String → List String → Except FileError Place) :
    List String → List String → Except FileError Place
  | reached, [] => .ok (.present reached)
  | reached, part :: rest =>
    if Path.isVoid part then
      if ((root.get? reached).map isDirectory).getD false then walk root last jump reached rest
      else .error .notDirectory
    else if part = ".." then walk root last jump reached.dropLast rest
    else
      let here := reached ++ [part]
      match root.get? here with
      | none =>
        if ((root.get? reached).map isDirectory).getD false then
          if maxName < part.utf8ByteSize then .error .nameTooLong
          else if rest.isEmpty then .ok (.absent reached part) else .error .notFound
        else .error .notDirectory
      | some (link target) =>
        if rest.isEmpty && !last then .ok (.present here)
        else jump (if Path.isAbsolute target then [] else reached) (Path.parts target ++ rest)
      | some _ => walk root last jump here rest

/-- Follows the parts of a path from a directory, over so many links at most. -/
def follow (root : Entry) (last : Bool) : Nat → List String → List String → Except FileError Place
  | 0 => walk root last fun _ _ => .error .tooManyLinks
  | links + 1 => walk root last (follow root last links)

/-- Follows an absolute path. -/
def locate (root : Entry) (last : Bool) (path : String) : Except FileError Place :=
  if path = "" then .error .notFound
  else if path.toList.contains '\x00' then .error .endInside
  else if maxPath < path.utf8ByteSize then .error .nameTooLong
  else follow root last maxLinks [] (Path.parts path)

def read (root : Entry) (path : String) : Except FileError ByteArray := do
  match ← root.locate true path with
  | .absent _ _ => .error .notFound
  | .present names =>
    match root.get? names with
    | some (file content) => .ok content
    | some (directory _) => .error .isDirectory
    | _ => .error .notFound

def write (root : Entry) (path : String) (content : ByteArray) : Except FileError Entry := do
  match ← root.locate true path with
  | .absent above name => .ok (root.update (fun _ => some (file content)) (above ++ [name]))
  | .present names =>
    match root.get? names with
    | some (directory _) => .error .isDirectory
    | _ => .ok (root.update (fun _ => some (file content)) names)

/-- A slash at the end of the path of a new directory has no meaning. -/
def makeDirectory (root : Entry) (path : String) : Except FileError Entry := do
  let trimmed := Path.ofParts (Path.trimmedParts path)
  match ← root.locate false (if trimmed = "" then path else trimmed) with
  | .absent above name => .ok (root.update (fun _ => some (directory [])) (above ++ [name]))
  | .present _ => .error .exists

/-- Where a path leads that may be given to another entry: not to a directory itself, by a dot at its
end. -/
def locateTarget (root : Entry) (path : String) : Except FileError Place := do
  let parts := ((Path.parts path).reverse.dropWhile (· = "")).reverse
  if [some ".", some ".."].contains parts.getLast? then
    let _ ← root.locate true (Path.ofParts (parts.dropLast ++ [""]))
    .error .busy
  else root.locate false (Path.ofParts parts)

def endsInSlash (path : String) : Bool := path.toList.getLast? = some '/'

/-- Gives an entry another path. What stood there is replaced, if both are directories or neither is;
a slash at the end asks for a directory. -/
def rename (root : Entry) (source target : String) : Except FileError Entry := do
  match ← root.locate false source with
  | .absent _ _ => .error .notFound
  | .present names =>
    let place ← root.locateTarget target
    let moved := root.get? names
    let isDirectory := (moved.map isDirectory).getD false
    if !isDirectory && endsInSlash target then .error .notDirectory
    else
      match place with
      | .absent above name =>
        .ok ((root.update (fun _ => none) names).update (fun _ => moved) (above ++ [name]))
      | .present other =>
        if other = names then .ok root
        else
          match isDirectory, (root.get? other).map Entry.isDirectory with
          | false, some true => .error .isDirectory
          | true, some false => .error .notDirectory
          | _, _ => .ok ((root.update (fun _ => none) names).update (fun _ => moved) other)

/-- The entry that a path leads to. -/
def at? (root : Entry) (path : String) : Option Entry :=
  match root.locate true path with
  | .ok (.present names) => root.get? names
  | _ => none

def kind? (root : Entry) (path : String) : Option FileKind := (root.at? path).map kind

def list (root : Entry) (path : String) : List (String × FileKind) :=
  match root.at? path with
  | some (directory entries) => entries.map fun (n, e) => (n, e.kind)
  | _ => []

def canonical? (root : Entry) (path : String) : Option String :=
  match root.locate true path with
  | .ok (.present names) => some ("/" ++ Path.ofParts names)
  | _ => none

mutual
/-- The paths below an entry of all that are no directories. -/
def leaves (path : String) : Entry → List String
  | directory entries => leavesOf path entries
  | _ => [path]

def leavesOf (path : String) : List (String × Entry) → List String
  | [] => []
  | (name, e) :: rest =>
    leaves (if path = "" then name else path ++ "/" ++ name) e ++ leavesOf path rest
end

/-- All that are no directories below a path, in order. -/
def filesBelow (root : Entry) (path : String) : List String :=
  match root.at? path with
  | some (directory entries) => (leavesOf "" entries).mergeSort fun a b => decide (a ≤ b)
  | _ => []

end Entry

/-- Operations on a tree of files. -/
abbrev TreeM := StateM Entry

namespace TreeM

/-- An operation that may change the tree. -/
def changing (f : Entry → Except FileError Entry) : TreeM (Except FileError Unit) := do
  match f (← get) with
  | .ok root =>
    set root
    return .ok ()
  | .error e => return .error e

instance : FileSystem TreeM where
  read path := return (← get).read path
  write path content := changing (·.write path content)
  makeDirectory path := changing (·.makeDirectory path)
  rename source target := changing (·.rename source target)
  kind? path := return (← get).kind? path
  list path := return (← get).list path
  canonical? path := return (← get).canonical? path

end TreeM

end DefectScan
