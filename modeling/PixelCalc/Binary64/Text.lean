import PixelCalc.Binary64.Shortest

/-!
# The text of a number

Shortest digits laid out in one of two ways.

- `Layout.plain`: what messages and results show: never an exponent, and no point after a whole
  number.
- `Layout.json`: what JSON shows: a point in every number, an exponent for the very large and the
  very small.
-/

namespace PixelCalc
namespace Binary64

/-- How digits become text. -/
structure Layout where
  /-- Which of two equally near decimals is taken. -/
  tie : Tie
  /-- Whether a number is written without an exponent, by the power of ten of its first digit. -/
  positional : Int → Bool
  /-- What follows a whole number written without an exponent. -/
  wholeEnd : String

/-- Numbers in results and messages. -/
def Layout.plain : Layout where
  tie := .up
  positional := fun _ => true
  wholeEnd := ""

/-- Numbers in JSON. -/
def Layout.json : Layout where
  tie := .even
  positional := fun e => -5 ≤ e && e < 16
  wholeEnd := ".0"

/-- The decimal digits of a natural number. -/
def digitChars (n : Nat) : List Char :=
  Nat.toDigits 10 n

/-- A decimal without an exponent: the point stands after, inside or before the digits. -/
def Layout.positionalText (layout : Layout) (d : Decimal) : String :=
  let digits := digitChars d.digits
  let point : Int := digits.length + d.exponent
  if 0 ≤ d.exponent then
    String.ofList (digits ++ List.replicate d.exponent.toNat '0') ++ layout.wholeEnd
  else if 0 < point then
    String.ofList (digits.take point.toNat ++ '.' :: digits.drop point.toNat)
  else
    String.ofList ('0' :: '.' :: (List.replicate (-point).toNat '0' ++ digits))

/-- A decimal with an exponent: one digit before the point, the sign of the exponent always
written. -/
def scientificText (d : Decimal) : String :=
  let digits := digitChars d.digits
  let power : Int := digits.length + d.exponent - 1
  let fraction := if digits.length ≤ 1 then [] else '.' :: digits.drop 1
  let sign := if power < 0 then '-' else '+'
  String.ofList (digits.take 1 ++ fraction ++ 'e' :: sign :: digitChars power.natAbs)

/-- A decimal in the given layout. -/
def Layout.decimalText (layout : Layout) (d : Decimal) : String :=
  let power : Int := (digitChars d.digits).length + d.exponent - 1
  if layout.positional power then layout.positionalText d else scientificText d

/-- The text of a double. The sign of zero is shown, that of NaN is not. -/
def Layout.text (layout : Layout) (x : Float) : String :=
  if x.isNaN then
    "NaN"
  else
    let body :=
      if x.isInf then "inf" else layout.decimalText ((magnitude x).shortest layout.tie)
    if isNegative x then "-" ++ body else body

/-- The text of a number in results and messages. -/
def plainText (x : Float) : String :=
  Layout.plain.text x

/-- The text of a finite number in JSON. -/
def jsonText (x : Float) : String :=
  Layout.json.text x

end Binary64
end PixelCalc
