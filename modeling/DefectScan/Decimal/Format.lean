import DefectScan.Decimal.Shortest

/-!
# Writing numbers

Three ways to write a number: with its shortest digits, with a fixed number of places, and with a
fixed number of digits and an exponent.
-/

namespace DefectScan.Decimal

/-- The decisions of a format for shortest digits. -/
structure NumberFormat where
  /-- Powers of ten of the leading digit from `plainFrom` up to `plainTo` are written in full. -/
  plainFrom : Int
  plainTo : Int
  /-- The sign of a positive exponent. -/
  exponentSign : String
  tie : Tie

def digitsOf (n : Nat) : List Char := Nat.toDigits 10 n

def zeros (n : Nat) : List Char := List.replicate n '0'

/-- Digits with a point at a place counted from their start; a number without places gets `.0`. -/
def withPoint (digits : List Char) (point : Int) : List Char :=
  if point ≤ 0 then '0' :: '.' :: (zeros (-point).toNat ++ digits)
  else if (digits.length : Int) ≤ point then
    digits ++ zeros (point.toNat - digits.length) ++ ['.', '0']
  else digits.take point.toNat ++ '.' :: digits.drop point.toNat

/-- One digit, a point if more follow, and the power of ten. -/
def withExponent (positive : String) (digits : List Char) (power : Int) : List Char :=
  let mantissa := match digits with
    | d :: [] => [d]
    | d :: rest => d :: '.' :: rest
    | [] => []
  let sign := if power < 0 then "-" else positive
  mantissa ++ 'e' :: (sign.toList ++ digitsOf power.natAbs)

/-- Writes a decimal that is not zero. -/
def NumberFormat.layout (f : NumberFormat) (d : Number) : List Char :=
  let digits := digitsOf d.digits
  let power : Int := d.exponent + digits.length - 1
  if f.plainFrom ≤ power && power ≤ f.plainTo then withPoint digits (power + 1)
  else withExponent f.exponentSign digits power

def signed (negative : Bool) (text : List Char) : List Char := if negative then '-' :: text else text

/-- Writes a finite number with its shortest digits. -/
def NumberFormat.render (f : NumberFormat) (x : Float) : String :=
  let d := Dyadic.ofFloat x
  let body := if d.mantissa = 0 then ['0', '.', '0'] else f.layout (d.shortest f.tie)
  String.ofList (signed (isNegative x) body)

/-- What stands for a number that is not finite. -/
def special? (x : Float) : Option String :=
  if x.isNaN then some "NaN"
  else if x.isInf then some (if isNegative x then "-inf" else "inf")
  else none

/-- Writes a number with its shortest digits and without an exponent; a whole number has no point. -/
def plain (x : Float) : String :=
  match special? x with
  | some s => s
  | none =>
    let d := Dyadic.ofFloat x
    let body :=
      if d.mantissa = 0 then ['0']
      else
        let short := d.shortest .up
        let digits := digitsOf short.digits
        if 0 ≤ short.exponent then digits ++ zeros short.exponent.toNat
        else withPoint digits (digits.length + short.exponent)
    String.ofList (signed (isNegative x) body)

/-- Writes a number with a fixed number of places. -/
def fixed (places : Nat) (x : Float) : String :=
  match special? x with
  | some s => s
  | none =>
    let (num, den) := (Dyadic.ofFloat x).dividedBy (-places)
    let digits := digitsOf (roundDiv num den)
    let digits := zeros (places + 1 - digits.length) ++ digits
    let whole := digits.length - places
    let body := if places = 0 then digits else digits.take whole ++ '.' :: digits.drop whole
    String.ofList (signed (isNegative x) body)

/-- Writes a number with one digit before the point, `places` behind it, and an exponent. -/
def scientific (places : Nat) (x : Float) : String :=
  match special? x with
  | some s => s
  | none =>
    let d := Dyadic.ofFloat x
    let (digits, power) :=
      if d.mantissa = 0 then (zeros (places + 1), (0 : Int))
      else
        let power := d.scale - 1
        let (num, den) := d.dividedBy (power - places)
        let rounded := roundDiv num den
        if rounded < Nat.pow 10 (places + 1) then (digitsOf rounded, power)
        else (digitsOf (rounded / 10), power + 1)
    String.ofList (signed (isNegative x) (withExponent "" digits power))

end DefectScan.Decimal
