import DefectScan.Decimal.Format
import DefectScan.Finding
import DefectScan.Sha256

/-!
# Fingerprints

The fingerprint of a finding is the digest of what identifies it: category, line, description and
detector, one behind the other.
-/

namespace DefectScan.Finding

/-- A number as eight bytes, the lowest first. -/
def lineBytes (n : Nat) : List UInt8 := (List.range 8).map fun i => (n / Nat.pow 256 i).toUInt8

/-- The bytes that identify a finding. -/
def identity (f : Finding) : List UInt8 :=
  f.category.name.toUTF8.toList ++ lineBytes f.line ++ f.description.toUTF8.toList
    ++ f.detector.name.toUTF8.toList

def fingerprint (f : Finding) : String := Sha256.hex ⟨f.identity.toArray⟩

/-- A finding on one line. -/
def display (f : Finding) : String :=
  let confidence := match f.confidence with
    | some x => " [confidence " ++ Decimal.fixed 2 x ++ "]"
    | none => ""
  "[" ++ f.severity.name ++ "] " ++ f.category.name ++ " (" ++ f.detector.name ++ "): "
    ++ f.description ++ confidence

end DefectScan.Finding
