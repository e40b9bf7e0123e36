import PixelCalc.Binary64.Text
import PixelCalc.Syntax.Operator

/-!
# Tokens

- `Bracket`: the two kinds of bracket.
- `Token`: the words of an expression.
- `Token.endsValue`: whether a value may end at a token, which decides how a following `-` reads.
-/

namespace PixelCalc

/-- The kinds of bracket: round ones group, square ones index. -/
inductive Bracket where
  | round
  | square
deriving Repr, DecidableEq

/-- The opening character of a bracket. -/
def Bracket.opener : Bracket → Char
  | round => '('
  | square => '['

/-- The closing character of a bracket. -/
def Bracket.closer : Bracket → Char
  | round => ')'
  | square => ']'

/-- A word of an expression. -/
inductive Token where
  | opening (bracket : Bracket)
  | closing (bracket : Bracket)
  | comma
  | dot
  | operator (op : Operator)
  | number (value : Float)
  | name (name : String)
deriving Repr

namespace Token

/-- A value may end at this token. After it a `-` subtracts; elsewhere a `-` before a digit is the
sign of a number. -/
def endsValue : Token → Bool
  | closing _ | number _ | name _ => true
  | _ => false

/-- The token as text. -/
def text : Token → String
  | opening b => String.singleton b.opener
  | closing b => String.singleton b.closer
  | comma => ","
  | dot => "."
  | operator op => op.symbol
  | number x => Binary64.plainText x
  | name n => n

end Token

end PixelCalc
