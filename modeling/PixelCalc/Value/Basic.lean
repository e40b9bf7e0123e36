import PixelCalc.Value.Fault
import PixelCalc.Value.Range

/-!
# Values

What expressions evaluate to.

- `Value`: numbers, matrices, truth values, ranges and faults; beside them the missing operand of a
  prefix and the target of an assignment, which only operators see.
- `Value.text`: a value in one line.
- `Value.pretty`: a value with the numbers of a matrix, a large one cut to its first rows and
  columns.
-/

namespace PixelCalc

/-- The result of evaluating an expression. -/
inductive Value where
  | number (x : Float)
  | matrix (m : Matrix)
  | boolean (b : Bool)
  | range (r : IndexRange)
  | nothing
  | reference (name : String)
  | error (fault : Fault)

namespace Value

/-- The value is a fault. -/
def isError : Value → Bool
  | error _ => true
  | _ => false

/-- The number that a value is. -/
def number? : Value → Option Float
  | number x => some x
  | _ => none

/-- The matrix that a value is. -/
def matrix? : Value → Option Matrix
  | matrix m => some m
  | _ => none

/-- The name of the type of a value. -/
def typeName : Value → String
  | number _ => "Number"
  | matrix _ => "Mat"
  | boolean _ => "Boolean"
  | range _ => "Range"
  | nothing => "Nothing"
  | reference _ => "VariableNameReference"
  | error _ => "Error"

/-- A value in one line. -/
def text : Value → String
  | number x => Binary64.plainText x
  | matrix m => m.text
  | boolean b => if b then "true" else "false"
  | range r => r.text
  | nothing => "<nothing>"
  | reference name => "VariableRef(" ++ name ++ ")"
  | error fault => fault.message

/-! ### Matrices in full -/

/-- How many rows and columns of a matrix are shown. -/
def shown : Nat :=
  8

/-- A pixel: its number, or its channels in brackets. -/
def pixelText (m : Matrix) (row col : Nat) : String :=
  let channels := (List.range m.channels).map fun channel =>
    Binary64.plainText (m.entry row col channel)
  if m.channels = 1 then String.join channels else "(" ++ ", ".intercalate channels ++ ")"

/-- A row of a matrix, up to the last column that is shown. -/
def rowText (m : Matrix) (row : Nat) : String :=
  let cells := (List.range (min m.cols shown)).map fun col => pixelText m row col
  let cells := if shown < m.cols then cells ++ ["..."] else cells
  "  [" ++ ", ".intercalate cells ++ "]"

/-- The lines of a matrix: its summary, its rows, and how many rows are left out. -/
def matrixLines (m : Matrix) : List String :=
  let rows := (List.range (min m.rows shown)).map fun row => rowText m row
  let rest := if shown < m.rows then [s!"  ... {m.rows - shown} more row(s)"] else []
  m.text :: (rows ++ rest)

/-- A value with the numbers of a matrix. -/
def pretty : Value → String
  | matrix m => "\n".intercalate (matrixLines m)
  | v => v.text

end Value

end PixelCalc
