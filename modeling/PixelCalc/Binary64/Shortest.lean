import PixelCalc.Binary64.Parts

/-!
# Shortest decimals

The digits of a double are the fewest that read back to it, and among those the nearest to it.

- `Decimal`: `digits · 10^exponent`.
- `Magnitude.readsBack`: the specification: a decimal lies among the reals that round to the double.
- `Magnitude.shortest`: the search for the fewest digits, from one digit up. On each grid of decimals
  only the two neighbours of the number need a test.
-/

namespace PixelCalc
namespace Binary64

/-- The decimal number `digits · 10^exponent`. -/
structure Decimal where
  digits : Nat
  exponent : Int
deriving Repr, DecidableEq

/-- Which of two equally near decimals is taken. -/
inductive Tie where
  | up
  | even
deriving Repr, DecidableEq

/-- A power of ten. -/
def tenPow (n : Nat) : Nat :=
  Nat.pow 10 n

/-- Compares `a · 10^i` with `b · 2^j`. -/
def compareScaled (a : Nat) (i : Int) (b : Nat) (j : Int) : Ordering :=
  compare ((a * tenPow i.toNat) <<< (-j).toNat) ((b <<< j.toNat) * tenPow (-i).toNat)

/-- The decimal lies between the midpoints to the neighbouring doubles. The midpoints themselves
round to the double with the even significand. -/
def Magnitude.readsBack (x : Magnitude) (d : Decimal) : Bool :=
  let low := if x.narrow then 4 * x.m - 1 else 4 * x.m - 2
  let high := 4 * x.m + 2
  let closed := x.m % 2 == 0
  let fromLow := compareScaled d.digits d.exponent low (x.q - 2)
  let fromHigh := compareScaled d.digits d.exponent high (x.q - 2)
  (fromLow == .gt || (closed && fromLow == .eq)) &&
    (fromHigh == .lt || (closed && fromHigh == .eq))

/-- The least `k` with `m · 2^q < 10^k`: the binary logarithm gives it up to one step. -/
def Magnitude.decimalPlaces (x : Magnitude) : Int :=
  let guess := ((Nat.log2 x.m + x.q) * 30103).fdiv 100000
  if compareScaled 1 guess x.m x.q == .gt then guess
  else if compareScaled 1 (guess + 1) x.m x.q == .gt then guess + 1
  else guess + 2

/-- The better of the two neighbours of `x` on the grid of multiples of `10^e`, if one of them
reads back. -/
def Magnitude.onGrid? (x : Magnitude) (tie : Tie) (e : Int) : Option Decimal :=
  let below := x.num * tenPow (-e).toNat / (x.den * tenPow e.toNat)
  match x.readsBack ⟨below, e⟩, x.readsBack ⟨below + 1, e⟩ with
  | false, false => none
  | true, false => some ⟨below, e⟩
  | false, true => some ⟨below + 1, e⟩
  | true, true =>
    match compareScaled (2 * below + 1) e (2 * x.m) x.q with
    | .gt => some ⟨below, e⟩
    | .lt => some ⟨below + 1, e⟩
    | .eq =>
      match tie with
      | .up => some ⟨below + 1, e⟩
      | .even => some ⟨below + below % 2, e⟩

/-- Moves trailing zeros of the digits into the exponent, at most `fuel` of them. -/
def Decimal.strip : Nat → Decimal → Decimal
  | 0, d => d
  | fuel + 1, d =>
    if d.digits % 10 = 0 ∧ d.digits ≠ 0 then strip fuel ⟨d.digits / 10, d.exponent + 1⟩ else d

/-- The exact decimal value of a magnitude. -/
def Magnitude.exactDecimal (x : Magnitude) : Decimal :=
  if 0 ≤ x.q then ⟨x.num, 0⟩ else ⟨x.m * Nat.pow 5 (-x.q).toNat, x.q⟩

/-- The decimal with the fewest digits that reads back to `x`, the nearest to `x` among those.
Seventeen digits always read back, so the exact value at the end is for completeness only. -/
def Magnitude.shortest (x : Magnitude) (tie : Tie) : Decimal :=
  if x.m = 0 then
    ⟨0, 0⟩
  else
    let k := x.decimalPlaces
    match (List.range 17).findSome? fun n : Nat => x.onGrid? tie (k - 1 - n) with
    | some d => d.strip 17
    | none => x.exactDecimal

end Binary64
end PixelCalc
