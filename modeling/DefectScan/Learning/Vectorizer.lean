import DefectScan.OrderedMap
import DefectScan.Text.Lowercase
import DefectScan.Text.Word

/-!
# Words as numbers

A text is read as its tokens, the runs of at least two word characters in small letters. A vectorizer
knows the most frequent tokens of a corpus, in alphabetical order, with a weight for each that is
the greater the fewer texts hold it. It turns a text into the weighted counts of these tokens,
scaled to length one.
-/

namespace DefectScan.Learning

/-! ## Tokens -/

/-- The maximal runs of word characters; `run` is the run so far, last character first. -/
def wordRuns : List Char → List Char → List (List Char)
  | [], run => if run.isEmpty then [] else [run.reverse]
  | c :: cs, run =>
    if Text.isWord c then wordRuns cs (c :: run)
    else if run.isEmpty then wordRuns cs []
    else run.reverse :: wordRuns cs []

def tokenize (text : String) : List String :=
  ((wordRuns (Text.lowercase text.toList) []).filter (2 ≤ ·.length)).map String.ofList

/-! ## Counting -/

/-- What is counted in a corpus: how often each token occurs, and how many texts hold it. -/
structure Counts where
  occurrences : OrderedMap String Nat := .empty
  holders : OrderedMap String Nat := .empty

namespace Counts

/-- Counts one token of a text, of which the tokens in `seen` have come before. -/
def addToken (state : Counts × List String) (t : String) : Counts × List String :=
  let (counts, seen) := state
  let counts := { counts with occurrences := counts.occurrences.update t 0 (· + 1) }
  if seen.contains t then (counts, seen)
  else ({ counts with holders := counts.holders.update t 0 (· + 1) }, seen ++ [t])

/-- Counts the tokens of a text, none of which has been seen. -/
def addText (counts : Counts) (tokens : List String) : Counts :=
  (tokens.foldl addToken (counts, [])).1

def ofTexts (texts : List (List String)) : Counts := texts.foldl addText {}

end Counts

def sortStrings (ss : List String) : List String := ss.mergeSort fun a b => decide (a ≤ b)

/-! ## The vectorizer -/

structure Vectorizer where
  terms : List String
  /-- The weight of each term. -/
  idf : List Float

namespace Vectorizer

/-- The tokens that occur most often; of equally frequent ones the first that are listed. -/
def topTerms (counts : List (String × Nat)) (size : Nat) : List String :=
  ((counts.mergeSort fun a b => b.2 ≤ a.2).take size).map (·.1)

/-- The weight of a term that `holding` of `documents` texts hold. -/
def weight (documents holding : Nat) : Float :=
  Float.log ((1 + documents.toFloat) / (1 + holding.toFloat)) + 1

def fit (documents : List String) (size : Nat) : Vectorizer :=
  let counts := Counts.ofTexts (documents.map tokenize)
  let terms := sortStrings (topTerms counts.occurrences.entries size)
  { terms, idf := terms.map fun t => weight documents.length ((counts.holders.get? t).getD 0) }

/-- The column of a term, in an array in alphabetical order. -/
def column? (terms : Array String) (t : String) (low high : Nat) : Option Nat :=
  if h : low < high then
    let mid := (low + high) / 2
    let m := terms.getD mid ""
    if m = t then some mid
    else if m < t then column? terms t (mid + 1) high
    else column? terms t low mid
  else none
termination_by high - low

/-- Adds one for every token that is known. -/
def countTokens (terms : Array String) (counts : Array Float) : List String → Array Float
  | [] => counts
  | t :: ts =>
    match column? terms t 0 terms.size with
    | some i => countTokens terms (counts.modify i (· + 1)) ts
    | none => countTokens terms counts ts

def weigh : List Float → List Float → List Float
  | c :: cs, w :: ws => c * w :: weigh cs ws
  | cs, _ => cs

/-- Scales a vector to length one, unless it is zero. -/
def normalise (v : List Float) : List Float :=
  let norm := Float.sqrt (v.foldl (fun s x => s + x * x) (-0.0))
  if norm > 0 then v.map (· / norm) else v

def transform (v : Vectorizer) (text : String) : List Float :=
  let terms := v.terms.toArray
  let counts := countTokens terms (Array.replicate terms.size 0) (tokenize text)
  normalise (weigh counts.toList v.idf)

def size (v : Vectorizer) : Nat := v.terms.length

/-- Whether strings are in strictly increasing order. -/
def isIncreasing : List String → Bool
  | a :: b :: rest => a < b && isIncreasing (b :: rest)
  | _ => true

/-- What is wrong with a vectorizer that was not fitted here. -/
def flaw? (v : Vectorizer) : Option String :=
  if v.terms.length ≠ v.idf.length then
    some ("vocabulary has " ++ toString v.terms.length ++ " terms but " ++ toString v.idf.length
      ++ " idf weights")
  else if !isIncreasing v.terms then some "vocabulary is not strictly sorted"
  else none

end Vectorizer

end DefectScan.Learning
