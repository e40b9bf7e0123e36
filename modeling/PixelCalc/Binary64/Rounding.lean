import PixelCalc.Binary64.Parts

/-!
# Rounding and remainders

Exact integer arithmetic on doubles.

- `halfEven`: the nearest natural number to a fraction, a half going to the even neighbour.
- `nearestInt?`: the nearest integer to a double; NaN and the infinities have none.
- `toByte`: the nearest of `0, …, 255`.
- `remainder`: what is left of `x` after taking away `y` as often as it fits, with `x`'s sign.
- `ofInteger`: the double nearest to an integer.
-/

namespace PixelCalc
namespace Binary64

/-- The natural number nearest to `num / den`; a half goes to the even neighbour. -/
def halfEven (num den : Nat) : Nat :=
  let below := num / den
  let twice := 2 * (num % den)
  if twice < den then below
  else if den < twice then below + 1
  else below + below % 2

/-- The natural number nearest to a magnitude, a half going to the even neighbour. -/
def Magnitude.round (x : Magnitude) : Nat :=
  halfEven x.num x.den

/-- The integer nearest to a double, a half going to the even neighbour. NaN and the infinities
have no nearest integer. -/
def nearestInt? (x : Float) : Option Int :=
  if x.isFinite then
    some (if isNegative x then -((magnitude x).round : Int) else (magnitude x).round)
  else
    none

/-- The double nearest to a natural number. -/
def ofNatural (n : Nat) : Float :=
  Float.ofScientific n false 0

/-- The double nearest to an integer. -/
def ofInteger : Int → Float
  | .ofNat n => ofNatural n
  | .negSucc n => -ofNatural (n + 1)

/-- The nearest of the integers from 0 to 255, NaN counting as 0. A number that rounds to zero
from below stays a negative zero. -/
def toByte (x : Float) : Float :=
  if x.isNaN then
    0
  else
    match nearestInt? x with
    | some n => if n = 0 then withSign (isNegative x) 0 else ofNatural (min n.toNat 255)
    | none => if isNegative x then 0 else 255

/-- The remainder of the division of `x` by `y` with the quotient cut towards zero. Both are whole
multiples of the smaller last place, so the remainder of two natural numbers is exact; it keeps the
sign of `x`, also when it is zero. -/
def remainder (x y : Float) : Float :=
  if x.isFinite && !y.isNaN && y != 0 then
    if y.isFinite then
      let a := magnitude x
      let b := magnitude y
      let q := min a.q b.q
      let r := (a.m <<< (a.q - q).toNat) % (b.m <<< (b.q - q).toNat)
      withSign (isNegative x) ((ofNatural r).scaleB q)
    else
      x
  else
    0 / 0

end Binary64
end PixelCalc
