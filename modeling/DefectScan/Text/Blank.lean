import DefectScan.Text.Table

/-!
# Blank characters

White space of any script, and a text without it at its ends.
-/

namespace DefectScan.Text

/-- The Unicode property White_Space, as ranges. -/
def blankRanges : List Nat := [
  9, 14, 32, 33, 133, 134, 160, 161, 5760, 5761, 8192, 8203, 8232, 8234, 8239, 8240, 8287, 8288,
  12288, 12289]

def isBlank (c : Char) : Bool := inRanges c.toNat blankRanges

def trimLeft (cs : List Char) : List Char := cs.dropWhile isBlank

def trimRight (cs : List Char) : List Char := (cs.reverse.dropWhile isBlank).reverse

/-- A text without the white space at its two ends. -/
def trim (cs : List Char) : List Char := trimRight (trimLeft cs)

end DefectScan.Text
