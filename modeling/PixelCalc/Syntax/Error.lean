import PixelCalc.Syntax.Token
import PixelCalc.Syntax.Tree

/-!
# Syntax errors

`SyntaxError` names what is wrong with an expression, `SyntaxError.message` says it.
-/

namespace PixelCalc

/-- Why an expression cannot be read. -/
inductive SyntaxError where
  /-- A symbol kept free for later use. -/
  | unsupported (symbol : String)
  | unexpected (c : Char)
  /-- A bracket closed by the other kind. -/
  | mismatched (opened found : Bracket)
  | unclosed (opened : Bracket)
  | unopened (found : Bracket)
  | nothingBeforeDot
  | notAValueBeforeDot (item : Item)
  | missingLeft (op : Operator)
  | invalidLeft (op : Operator) (item : Item)
  | missingRight (op : Operator)
  | invalidRight (op : Operator) (item : Item)
  /-- There is no expression at all. -/
  | empty
  /-- More than one item is left, or one that is no expression. -/
  | unresolved

namespace SyntaxError

/-- What is wrong, without the heading all syntax errors share. -/
def detail : SyntaxError → String
  | unsupported symbol => s!"'{symbol}' is not currently supported"
  | unexpected c => s!"Unexpected character '{c}'"
  | mismatched opened found =>
    s!"Unmatched Bracket (starts with '{opened.opener}' but ends with '{found.closer}' " ++
      s!"instead of '{opened.closer}')"
  | unclosed opened =>
    s!"It's the end of the expression, but the bracket '{opened.opener}' is not closed properly " ++
      s!"(expecting '{opened.closer}') at the end"
  | unopened found =>
    s!"The closing bracket '{found.closer}' does not have a matching opening bracket"
  | nothingBeforeDot => "There is no value before dot '.' character"
  | notAValueBeforeDot item => s!"The token '{item.text}' before dot '.' is not a value"
  | missingLeft op => s!"the operator '{op.label}' does not see anything to the left"
  | invalidLeft op item =>
    s!"the operator '{op.label}' sees the invalid token to the left '{item.text}' " ++
      "(The token is not a value)"
  | missingRight op =>
    s!"It's the end of the expression. However, the operator '{op.label}' does not see the value " ++
      "to its right"
  | invalidRight op item =>
    s!"the operator '{op.label}' sees the invalid token to the right '{item.text}' " ++
      "(The token is not a value)"
  | empty => "The expression is empty"
  | unresolved => "The token parsed unsuccessfully"

/-- The message of a syntax error. -/
def message (e : SyntaxError) : String :=
  "Syntax Error: " ++ e.detail

end SyntaxError

end PixelCalc
