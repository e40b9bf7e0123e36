import PixelCalc.Value.Basic

/-!
# Arguments of built-in functions

Arguments are taken apart by number and by type; what does not fit is a fault that names the
function and the parameter.
-/

namespace PixelCalc
namespace Builtin

/-- The only argument. -/
def one (f : Builtin) : List Value → Except Fault Value
  | [a] => .ok a
  | args => .error (.argumentCount f args.length)

/-- The two arguments. -/
def two (f : Builtin) : List Value → Except Fault (Value × Value)
  | [a, b] => .ok (a, b)
  | args => .error (.argumentCount f args.length)

/-- The three arguments. -/
def three (f : Builtin) : List Value → Except Fault (Value × Value × Value)
  | [a, b, c] => .ok (a, b, c)
  | args => .error (.argumentCount f args.length)

/-- An argument that is a matrix. -/
def matrixArgument (f : Builtin) (parameter : String) : Value → Except Fault Matrix
  | .matrix m => .ok m
  | v => .error (.argumentType f parameter v.text "[Mat]")

/-- An argument that is a number. -/
def numberArgument (f : Builtin) (parameter : String) : Value → Except Fault Float
  | .number x => .ok x
  | v => .error (.argumentType f parameter v.text "[Number]")

/-- A matrix argument has exactly so many channels. -/
def checkChannels (f : Builtin) (parameter : String) (m : Matrix) (channels : Nat) :
    Except Fault Unit :=
  if m.channels = channels then .ok ()
  else .error (.argumentType f parameter m.text s!"a {channels}-channel [Mat]")

/-- A matrix argument has the rows and columns of another one. -/
def checkSize (f : Builtin) (parameter : String) (m reference : Matrix) : Except Fault Unit :=
  if m.sameSize reference then .ok ()
  else
    .error (.argumentSize f parameter m.text reference.text reference.rows reference.cols)

/-- The matrix that a function returns. -/
def finish (f : Builtin) : Except MatrixError Matrix → Except Fault Value
  | .ok m => .ok (.matrix m)
  | .error e => .error (.badMatrix f e)

/-- The matrix of a construction without a check. -/
def built : Except Assertion Matrix → Except Fault Matrix
  | .ok m => .ok m
  | .error a => .error (.broken a)

end Builtin
end PixelCalc
