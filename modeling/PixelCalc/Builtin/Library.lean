import PixelCalc.Builtin.Block
import PixelCalc.Builtin.Planes
import PixelCalc.Builtin.Pointwise

/-!
# The built-in library

- `Builtin.run`: the body of every built-in function.
- `Builtin.invoke`: a call; the first fault among the arguments is its result, before anything else
  is looked at.
-/

namespace PixelCalc
namespace Builtin

/-- The result of a function whose arguments are no faults. -/
def run : Builtin → List Value → Except Fault Value
  | abs => runAbs
  | clamp => runClamp
  | min => runExtreme min Binary64.smaller Matrix.least
  | max => runExtreme max Binary64.larger Matrix.greatest
  | normalizeTo => runNormalizeTo
  | getChannelCount => runGetChannelCount
  | getChannel => runGetChannel
  | replaceChannel => runReplaceChannel
  | combineChannels => runCombineChannels
  | rgbReplace => runRgbReplace
  | alphaReplace => runAlphaReplace
  | getRgb => runGetRgb
  | toImage => runToImage
  | toMatrix => runToMatrix
  | subMat => runSubMat

/-- The first fault among values. -/
def firstFault? : List Value → Option Fault
  | [] => none
  | .error fault :: _ => some fault
  | _ :: rest => firstFault? rest

/-- The value of a call. -/
def invoke (f : Builtin) (args : List Value) : Value :=
  match firstFault? args with
  | some fault => .error fault
  | none =>
    match f.run args with
    | .ok v => v
    | .error fault => .error fault

theorem firstFault?_eq_none {args : List Value} :
    firstFault? args = none ↔ ∀ v ∈ args, v.isError = false := by
  induction args with
  | nil => simp [firstFault?]
  | cons v rest ih => cases v <;> simp [firstFault?, Value.isError, ih]

end Builtin
end PixelCalc
