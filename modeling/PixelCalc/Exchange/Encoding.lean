import PixelCalc.Json.Basic
import PixelCalc.Value.Basic

/-!
# Values as JSON

Numbers, truth values and matrices are written so that reading gives them back. A matrix is an object
with rows of pixels; the channels of a pixel are an array unless there is only one. Numbers that JSON
lacks, ranges and names are written as texts, a fault as an object with its message.
-/

namespace PixelCalc

/-- A number in JSON. Those that are not finite have no form of their own and become texts. -/
def Json.ofNumber (x : Float) : Json :=
  if x.isFinite then .real x else .text (Binary64.plainText x)

/-- A pixel in JSON. -/
def Json.ofPixel (m : Matrix) (row col : Nat) : Json :=
  if m.channels = 1 then .ofNumber (m.entry row col 0)
  else
    .array ((List.range m.channels).map fun channel => .ofNumber (m.entry row col channel))

/-- A row of pixels in JSON. -/
def Json.ofRow (m : Matrix) (row : Nat) : Json :=
  .array ((List.range m.cols).map fun col => .ofPixel m row col)

/-- A matrix in JSON. -/
def Json.ofMatrix (m : Matrix) : Json :=
  .object (Table.ofList [
    ("type", .text m.kind.name),
    ("rows", .integer m.rows),
    ("cols", .integer m.cols),
    ("channels", .integer m.channels),
    ("data", .array ((List.range m.rows).map fun row => .ofRow m row))])

/-- A value in JSON. -/
def Value.toJson : Value → Json
  | .number x => .ofNumber x
  | .matrix m => .ofMatrix m
  | .boolean b => .bool b
  | .range r => .text r.text
  | .nothing => .null
  | .reference name => .text name
  | .error fault => .object [("error", .text fault.message)]

end PixelCalc
