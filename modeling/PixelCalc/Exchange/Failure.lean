import PixelCalc.Json.Basic
import PixelCalc.Value.Fault

/-!
# Failures

What can go wrong around the evaluation of an expression: in the variables handed to it, in its
syntax when only that is asked for, in its result, or in the choice of a page of the manual.

- `ValueProblem`: why a JSON document is no value.
- `Failure`: why a request fails.
-/

namespace PixelCalc

/-- Why a JSON document is no value of a variable. -/
inductive ValueProblem where
  | textNotValue (s : String)
  | notNumber (j : Json)
  | notSize (key : String) (j : Json)
  | rowLength (cols : Nat)
  | pixelChannels (channels : Nat) (j : Json)
  | unknownKind (name : String)
  | kindNotText (j : Json)
  | noData
  | noSizes
  | tooManyPixels (rows cols : Nat)
  /-- The variables are not given as the fields of an object. -/
  | notVariables

/-- The message of a problem with a value. -/
def ValueProblem.message : ValueProblem → String
  | textNotValue s => s!"strings are not values in expressions (got \"{s}\")"
  | notNumber j => s!"expected a number, got {j.compact}"
  | notSize key j => s!"'{key}' should be a positive integer, got {j.compact}"
  | rowLength cols => s!"every row should be an array of {cols} pixels"
  | pixelChannels channels j =>
    s!"every pixel should have {channels} channel(s), got {j.compact}"
  | unknownKind name => s!"unknown matrix type '{name}'"
  | kindNotText j => s!"matrix type should be a string, got {j.compact}"
  | noData => "a matrix object needs a 'data' array"
  | noSizes => "a flat 'data' array needs 'rows' and 'cols'"
  | tooManyPixels rows cols => s!"a {rows}x{cols} matrix is too large"
  | notVariables => "input must be a JSON object mapping variable names to values"

/-- Why a request fails. -/
inductive Failure where
  | syntaxError (e : SyntaxError)
  /-- The result is a fault. -/
  | evaluation (fault : Fault)
  /-- A text is no JSON document. -/
  | notJson
  /-- The input is no text. -/
  | undecodable
  | badBinding (binding : String)
  | badValue (problem : ValueProblem)
  | badMatrix (e : MatrixError)
  | unknownCategory (name : String)

/-- The message of a failure. -/
def Failure.message : Failure → String
  | syntaxError e => e.message
  | evaluation fault => fault.message
  | notJson => "Invalid JSON"
  | undecodable => "IO error: stream did not contain valid UTF-8"
  | badBinding binding =>
    s!"Invalid variable binding '{binding}' (expected NAME=VALUE where NAME is made of letters)"
  | badValue problem => s!"Invalid value: {problem.message}"
  | badMatrix e => s!"Invalid matrix: {e.message}"
  | unknownCategory name =>
    s!"Unknown category: '{name}'\nRun 'ptms docs' to see available categories."

end PixelCalc
