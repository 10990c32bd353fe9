/-!
# Values of floating-point numbers

The magnitude of a finite number is `mantissa * 2 ^ exponent`. The numbers that round to it form an
interval, from halfway to the neighbour below to halfway to the neighbour above; the ends belong to
it exactly if the mantissa is even.
-/

namespace DefectScan.Decimal

structure Dyadic where
  mantissa : Nat
  exponent : Int
  /-- The neighbour below is half as far away as the one above. -/
  narrowBelow : Bool

/-- `digits * 10 ^ exponent` -/
structure Number where
  digits : Nat
  exponent : Int
deriving DecidableEq, Repr

/-- The magnitude of a finite number. -/
def Dyadic.ofFloat (x : Float) : Dyadic :=
  let bits := x.toBits.toNat
  let e : Nat := bits / Nat.pow 2 52 % Nat.pow 2 11
  let f : Nat := bits % Nat.pow 2 52
  if e = 0 then ⟨f, -1074, false⟩ else ⟨Nat.pow 2 52 + f, (e : Int) - 1075, f = 0 && 1 < e⟩

/-- Whether the sign bit is set. -/
def isNegative (x : Float) : Bool := Nat.pow 2 63 ≤ x.toBits.toNat

/-- The quotient `a * 10 ^ i / (n * 2 ^ j)` as two
natural numbers. -/
def scaled (a : Nat) (i : Int) (n : Nat) (j : Int) : Nat × Nat :=
  (a * Nat.pow 10 i.toNat * Nat.pow 2 (-j).toNat, n * Nat.pow 2 j.toNat * Nat.pow 10 (-i).toNat)

/-- Compares `a * 10 ^ i` with `n * 2 ^ j`. -/
def compareScaled (a : Nat) (i : Int) (n : Nat) (j : Int) : Ordering :=
  compare (scaled a i n j).1 (scaled a i n j).2

/-- A quotient rounded to the nearest integer; a half goes to the even neighbour. -/
def roundDiv (num den : Nat) : Nat :=
  let q := num / den
  let r := num % den
  if 2 * r < den then q
  else if den < 2 * r then q + 1
  else if q % 2 = 0 then q else q + 1

namespace Dyadic

/-- Whether a decimal number rounds to this one. -/
def readsBack (x : Dyadic) (d : Number) : Bool :=
  let low := if x.narrowBelow then 4 * x.mantissa - 1 else 4 * x.mantissa - 2
  let high := 4 * x.mantissa + 2
  let ends := x.mantissa % 2 = 0
  let l := compareScaled d.digits d.exponent low (x.exponent - 2)
  let h := compareScaled d.digits d.exponent high (x.exponent - 2)
  (l = .gt || (ends && l = .eq)) && (h = .lt || (ends && h = .eq))

/-- The least `k` with `x < 10 ^ k`, for a number that is not zero. -/
def scale (x : Dyadic) : Int :=
  let estimate := ((x.mantissa.log2 : Int) + x.exponent) * 30103 / 100000 - 1
  ((List.range 5).map fun (i : Nat) => estimate + i).find?
    (fun k => compareScaled 1 k x.mantissa x.exponent = .gt) |>.getD (estimate + 5)

/-- The number divided by `10 ^ k`, as a quotient of natural numbers. -/
def dividedBy (x : Dyadic) (k : Int) : Nat × Nat :=
  let (den, num) := scaled 1 k x.mantissa x.exponent
  (num, den)

end Dyadic

/-- The number that a decimal rounds to. Numbers beyond the largest become infinite. -/
def toFloat (negative : Bool) (d : Number) : Float :=
  let width := (Nat.toDigits 10 d.digits).length
  let magnitude : Float :=
    if d.digits = 0 || d.exponent + width < -400 then 0
    else if 400 < d.exponent + width then 1 / 0
    else Float.ofScientific d.digits (d.exponent < 0) d.exponent.natAbs
  if negative then -magnitude else magnitude

end DefectScan.Decimal
