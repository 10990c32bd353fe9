import DefectScan.Learning.Error

/-!
# Where models are kept

A model store keeps bytes under keys. One is in memory, one keeps a file for each key.
-/

namespace DefectScan.Learning

structure ModelStore (m : Type → Type) where
  read : String → m (Except FileError (Option ByteArray))
  write : String → ByteArray → m (Except FileError Unit)

/-- Bytes under keys. -/
abbrev Blobs := List (String × ByteArray)

namespace Blobs

def get? (blobs : Blobs) (key : String) : Option ByteArray := blobs.lookup key

def put (key : String) (content : ByteArray) : Blobs → Blobs
  | [] => [(key, content)]
  | (k, x) :: rest => if k = key then (k, content) :: rest else (k, x) :: put key content rest

theorem get?_put (blobs : Blobs) (key other : String) (content : ByteArray) :
    (blobs.put key content).get? other = if other = key then some content else blobs.get? other := by
  induction blobs with
  | nil => grind [put, get?]
  | cons b bs ih => grind [put, get?]

end Blobs

namespace ModelStore

/-- Keeps the bytes in memory. -/
def memory : ModelStore (StateM Blobs) where
  read key := return .ok ((← get).get? key)
  write key content := do
    modify (Blobs.put key content)
    return .ok ()

/-- Keeps a file for each key in a directory. -/
def files {m : Type → Type} [Monad m] [FileSystem m] (root : String) : ModelStore m where
  read key := Files.readOptional (Path.join root key)
  write key content := Files.replace (Path.join root key) content

end ModelStore

end DefectScan.Learning
