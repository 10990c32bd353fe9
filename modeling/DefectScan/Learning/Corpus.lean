import DefectScan.Codec.Finding
import DefectScan.Json.Complaint
import DefectScan.Learning.Error
import DefectScan.Text.Blank
import DefectScan.Text.Lines

/-!
# Corpora

Labelled examples to learn from: a few that are built in, and files of examples. A file holds either
one JSON array of examples or one example on each line, with blank lines between.
-/

namespace DefectScan.Learning.Corpus

/-- One example for each category that has a typical form in C, and two without a defect. -/
def seed : List Example :=
  [.labelled "int* ptr = malloc(sizeof(int));\n*ptr = 42;\nreturn ptr;\n" [.memoryLeak],
    .labelled "struct Node* node;\nnode->data = 42;\n" [.nullPointer],
    .labelled "char buffer[5];\nstrcpy(buffer, \"This is too long\");\n" [.bufferOverflow],
    .labelled "int sum;\nfor(int i = 0; i < 10; i++) \x7b\n    sum += i;\n\x7d\n" [.uninitializedVar],
    .labelled "while(1) \x7b\n    printf(\"Forever\");\n\x7d\n" [.infiniteLoop],
    .labelled "int get_value() \x7b\n    int x = 42;\n\x7d\n" [.missingReturn],
    .labelled "int* ptr = malloc(sizeof(int));\n*ptr = 42;\nfree(ptr);\nreturn 0;\n" [],
    .labelled
      "int sum = 0;\nfor(int i = 0; i < 10; i++) \x7b\n    sum += i;\n\x7d\nreturn sum;\n" []]

/-- The lines that are not blank. -/
def filledLines (text : List Char) : List (List Char) :=
  (Text.Lines.seen text).filter fun l => !(Text.trim l).isEmpty

/-- Reads examples. -/
def ofText (text : String) : Except Json.Fault (List Example) :=
  let trimmed := Text.trimLeft text.toList
  if trimmed.head? = some '[' then Json.decodeText (Json.Decode.list Example.decode) trimmed
  else (filledLines text.toList).mapM (Json.decodeText Example.decode)

def shape : Json.Shape :=
  .record "TrainingExample"
    [("source_text", .string, false), ("labels", .list (.name (Category.all.map (·.name))), true)]

/-- What is said of a text that holds no examples. -/
def complaint? (text : String) : Option String :=
  let trimmed := Text.trimLeft text.toList
  if trimmed.head? = some '[' then Json.complaint? (.list shape) trimmed
  else (filledLines text.toList).findSome? (Json.complaint? shape)

/-- Reads a file of examples. -/
def read {m : Type → Type} [Monad m] [FileSystem m] (path : String) :
    m (Except Error (List Example)) := do
  match ← Files.readText path with
  | .error e => return .error (.file e)
  | .ok text => return (ofText text).mapError fun f => .examples f ((complaint? text).getD "")

end DefectScan.Learning.Corpus
