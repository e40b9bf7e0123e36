/-!
# Blank characters

The characters with the Unicode property White_Space, which surround a line of a session and the
parts of a variable binding.

- `isBlank`: the property.
- `trim`: a text without the blank characters at its ends.
-/

namespace PixelCalc
namespace Text

/-- The character has the Unicode property White_Space. -/
def isBlank (c : Char) : Bool :=
  let n := c.toNat
  (9 ≤ n && n ≤ 13) || n == 0x20 || n == 0x85 || n == 0xA0 || n == 0x1680 ||
    (0x2000 ≤ n && n ≤ 0x200A) || n == 0x2028 || n == 0x2029 || n == 0x202F || n == 0x205F ||
    n == 0x3000

/-- A text without the blank characters at its front. -/
def trimStart (text : List Char) : List Char :=
  text.dropWhile isBlank

/-- A text without the blank characters at its end. -/
def trimEnd (text : List Char) : List Char :=
  (text.reverse.dropWhile isBlank).reverse

/-- A text without the blank characters at its ends. -/
def trim (text : List Char) : List Char :=
  trimEnd (trimStart text)

end Text
end PixelCalc
