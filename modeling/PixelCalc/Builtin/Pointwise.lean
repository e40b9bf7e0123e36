import PixelCalc.Builtin.Arguments

/-!
# Functions of single numbers

`Abs`, `Clamp`, `Min`, `Max`, `NormalizeTo`, `ToImage` and `ToMatrix`: on a matrix they work at
every entry, and `Min` and `Max` of a single matrix are its extreme entries.
-/

namespace PixelCalc
namespace Builtin

/-- `Abs(value)`. -/
def runAbs (args : List Value) : Except Fault Value := do
  match ← one abs args with
  | .number x => return .number x.abs
  | .matrix m => return .matrix (← built (m.map Float.abs))
  | v => throw (.argumentType abs "value" v.text "[Number/Mat]")

/-- The bounds of `Clamp` must not be inverted. -/
def checkBounds (lower upper : Float) : Except Fault Unit :=
  if upper < lower then .error (.boundsInverted lower upper) else .ok ()

/-- A matrix of bounds has the shape of the matrix to be held between them. -/
def checkBoundShape (m : Matrix) (parameter : String) (bound : Matrix) : Except Fault Unit :=
  if m.sameShape bound then .ok () else .error (.boundShape parameter bound.text m.text)

/-- `Clamp(value, lower, upper)`. Bounds that are matrices hold entry by entry. -/
def runClamp (args : List Value) : Except Fault Value := do
  match ← three clamp args with
  | (.number x, .number lower, .number upper) =>
    checkBounds lower upper
    return .number (Binary64.clamp x lower upper)
  | (.matrix m, .number lower, .number upper) =>
    checkBounds lower upper
    return .matrix (← built (m.map fun x => Binary64.clamp x lower upper))
  | (.matrix m, .matrix lower, .matrix upper) =>
    checkBoundShape m "lowerBound" lower
    checkBoundShape m "upperBound" upper
    let raised ← built (m.zipWith Binary64.larger lower)
    return .matrix (← built (raised.zipWith Binary64.smaller upper))
  | (.number _, .number _, upper) =>
    throw (.argumentType clamp "upperBound" upper.text "[Number]")
  | (.number _, lower, _) => throw (.argumentType clamp "lowerBound" lower.text "[Number]")
  | (.matrix _, .number _, upper) =>
    throw (.argumentType clamp "upperBound" upper.text "[Number]")
  | (.matrix _, .matrix _, upper) => throw (.argumentType clamp "upperBound" upper.text "[Mat]")
  | (.matrix _, lower, _) => throw (.argumentType clamp "lowerBound" lower.text "[Number/Mat]")
  | (v, _, _) => throw (.argumentType clamp "value" v.text "[Number/Mat]")

/-- The extreme of numbers. -/
def extremeNumber (f : Builtin) (pick : Float → Float → Float) :
    Float → List Value → Except Fault Float
  | x, [] => .ok x
  | x, .number y :: rest => extremeNumber f pick (pick x y) rest
  | _, v :: _ => .error (.argumentType f "value" v.text "[Number]")

/-- The extreme of matrices of one shape, entry by entry. -/
def extremeMatrix (f : Builtin) (pick : Float → Float → Float) :
    Matrix → List Value → Except Fault Matrix
  | m, [] => .ok m
  | m, .matrix n :: rest =>
    if m.sameShape n then do
      let picked ← built (m.zipWith pick n)
      extremeMatrix f pick picked rest
    else .error (.unequalShapes f n.text m.text)
  | _, v :: _ => .error (.argumentType f "value" v.text "[Mat]")

/-- `Min(values…)` and `Max(values…)`: the arguments are numbers, or matrices of one shape. A single
matrix is reduced to its extreme entry. -/
def runExtreme (f : Builtin) (pick : Float → Float → Float) (reduce : Matrix → Float) :
    List Value → Except Fault Value
  | [] => .error (.argumentCount f 0)
  | .number x :: rest => return .number (← extremeNumber f pick x rest)
  | [.matrix m] => .ok (.number (reduce m))
  | .matrix m :: rest => return .matrix (← extremeMatrix f pick m rest)
  | v :: _ => .error (.argumentType f "value" v.text "[Number/Mat]")

/-- `NormalizeTo(mat, max)`: scales a matrix so that its greatest entry becomes `max`. -/
def runNormalizeTo (args : List Value) : Except Fault Value := do
  let (mat, normMax) ← two normalizeTo args
  let m ← matrixArgument normalizeTo "mat" mat
  let target ← numberArgument normalizeTo "normMax" normMax
  let greatest := m.greatest
  if greatest == 0 || !greatest.isFinite then
    throw (.noScale m.text greatest target)
  let scale := target / greatest
  return .matrix (← built (m.map fun x => x * scale))

/-- The kind of the image that a matrix becomes: its own, or the one for its channels. -/
def imageKind (m : Matrix) : MatrixKind :=
  if m.kind.isImage then m.kind
  else (MatrixKind.imageOfChannels? m.channels).getD .unknownImage

/-- `ToImage(mat)`: every entry becomes the nearest of 0 to 255. -/
def runToImage (args : List Value) : Except Fault Value := do
  let m ← matrixArgument toImage "mat" (← one toImage args)
  if m.channels == 1 || m.channels == 3 || m.channels == 4 then
    finish toImage ((m.mapEntries Binary64.toByte).withKind (imageKind m))
  else
    throw (.argumentType toImage "mat" m.text "a 1-channel, 3-channel or 4-channel [Mat]")

/-- `ToMatrix(mat)`: the same numbers as a plain matrix. -/
def runToMatrix (args : List Value) : Except Fault Value := do
  let m ← matrixArgument toMatrix "mat" (← one toMatrix args)
  finish toMatrix (m.withKind .plain)

end Builtin
end PixelCalc
