/-!
# Sets of characters

A set of characters is kept as a sorted list of code points, read in pairs: from the first of a
pair up to, and not including, the second.
-/

namespace DefectScan.Text

/-- Whether a code point lies in one of the ranges. -/
def inRanges (c : Nat) : List Nat → Bool
  | [] => false
  | [_] => false
  | lo :: hi :: rest => if c < lo then false else c < hi || inRanges c rest

end DefectScan.Text
