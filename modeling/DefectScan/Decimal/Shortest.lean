import DefectScan.Decimal.Dyadic

/-!
# Shortest decimals

The decimal with the fewest digits that reads back as a given number, and of several such the one
nearest to it. Grids of 1, 2, … digits are tried in turn; on each, only the two neighbours of the
number can be the nearest.
-/

namespace DefectScan.Decimal

/-- Where the middle between two equally near decimals goes. -/
inductive Tie
  | toEven
  | up
deriving DecidableEq

/-- The nearest decimal on a grid, if it reads back. -/
def Dyadic.onGrid (x : Dyadic) (tie : Tie) (grid : Int) : Option Number :=
  let (num, den) := x.dividedBy grid
  let q := num / den
  let r := num % den
  let low : Number := ⟨q, grid⟩
  let high : Number := ⟨q + 1, grid⟩
  match x.readsBack low, x.readsBack high with
  | true, true =>
    if 2 * r < den then some low
    else if den < 2 * r then some high
    else if tie = .toEven && q % 2 = 0 then some low else some high
  | true, false => some low
  | false, true => some high
  | false, false => none

/-- Moves zeros at the end of the digits into the exponent. -/
def Number.strip : Nat → Number → Number
  | 0, d => d
  | fuel + 1, d =>
    if d.digits % 10 = 0 && 0 < d.digits then strip fuel ⟨d.digits / 10, d.exponent + 1⟩ else d

/-- A number of digits that always suffices. -/
def maxDigits : Nat := 17

/-- The shortest decimal of a number that is not zero. -/
def Dyadic.shortest (x : Dyadic) (tie : Tie) : Number :=
  let k := x.scale
  let found := (List.range maxDigits).findSome? fun (n : Nat) => x.onGrid tie (k - (n + 1))
  let exact : Number :=
    if 0 ≤ x.exponent then ⟨x.mantissa * Nat.pow 2 x.exponent.toNat, 0⟩
    else ⟨x.mantissa * Nat.pow 5 (-x.exponent).toNat, x.exponent⟩
  (found.getD exact).strip 400

end DefectScan.Decimal
