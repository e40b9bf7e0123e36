import PixelCalc.Binary64.Rounding

/-!
# Reading decimal digits

- `digitsValue`: the natural number a list of digits stands for.
- `ofDecimal`: the double nearest to `digits · 10^exponent`.
-/

namespace PixelCalc
namespace Binary64

/-- The value of a decimal digit. -/
def digitValue (c : Char) : Nat :=
  c.toNat - '0'.toNat

/-- The natural number that a list of decimal digits stands for. -/
def digitsValue (digits : List Char) : Nat :=
  digits.foldl (fun n c => 10 * n + digitValue c) 0

/-- The double nearest to `digits · 10^exponent`. -/
def ofDecimal (digits : Nat) (exponent : Int) : Float :=
  Float.ofScientific digits (decide (exponent < 0)) exponent.natAbs

end Binary64
end PixelCalc
