/-!
# The parts of a double

A finite double is a sign and a magnitude `m · 2^q` with `m < 2^53`. Everything that has to be
exact (rounding to an integer, remainders, the digits of a number) is computed on these two
numbers instead of on floating-point operations.

- `Magnitude`: `m`, `q` and whether the gap to the double below is the narrow one.
- `magnitude`, `isNegative`: the parts of a double, read off its bits.
-/

namespace PixelCalc
namespace Binary64

/-- The absolute value of a finite double: `m · 2^q`. -/
structure Magnitude where
  /-- The significand, below `2^53`. -/
  m : Nat
  /-- The power of two of the last place. -/
  q : Int
  /-- The double below is half as far away as the double above, as it is at a power of two. -/
  narrow : Bool
deriving Repr, DecidableEq

/-- The sign bit; it is set for `-0` as well. -/
def isNegative (x : Float) : Bool :=
  x.toBits >>> 63 == 1

/-- The bit above the fraction, `2^52`, which is not written. -/
def hiddenBit : Nat :=
  0x10000000000000

/-- The magnitude written in the low 63 bits: eleven bits of exponent, fifty-two of fraction.
Exponent zero holds the subnormal doubles, which have no hidden bit. -/
def Magnitude.ofBits (bits : UInt64) : Magnitude :=
  let exponent : Nat := bits.toNat / hiddenBit % 0x800
  let fraction : Nat := bits.toNat % hiddenBit
  if exponent = 0 then
    ⟨fraction, -1074, false⟩
  else
    ⟨hiddenBit + fraction, (exponent : Int) - 1075, fraction == 0 && decide (1 < exponent)⟩

/-- The magnitude of a finite double. NaN and the infinities have none: test for them first. -/
def magnitude (x : Float) : Magnitude :=
  .ofBits x.toBits

/-- The numerator of a magnitude written as a fraction of natural numbers. -/
def Magnitude.num (x : Magnitude) : Nat :=
  x.m <<< x.q.toNat

/-- The denominator of a magnitude written as a fraction of natural numbers. -/
def Magnitude.den (x : Magnitude) : Nat :=
  1 <<< (-x.q).toNat

theorem Magnitude.ofBits_m_lt (bits : UInt64) : (Magnitude.ofBits bits).m < 2 * hiddenBit := by
  have : bits.toNat % hiddenBit < hiddenBit := Nat.mod_lt _ (by decide)
  unfold Magnitude.ofBits
  dsimp only
  split <;> dsimp only <;> omega

/-- A double with the sign of `negative` and the absolute value of `x`. -/
def withSign (negative : Bool) (x : Float) : Float :=
  if negative then -x else x

end Binary64
end PixelCalc
