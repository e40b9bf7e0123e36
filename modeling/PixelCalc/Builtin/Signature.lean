import PixelCalc.Text.Casing

/-!
# The built-in functions and their signatures

- `Builtin`: the functions that every environment has; their names ignore case.
- `Builtin.overloads`, `Builtin.arity`: the signatures as messages show them.
-/

namespace PixelCalc

/-- The built-in functions. -/
inductive Builtin where
  | abs
  | clamp
  | min
  | max
  | normalizeTo
  | getChannelCount
  | getChannel
  | replaceChannel
  | combineChannels
  | rgbReplace
  | alphaReplace
  | getRgb
  | toImage
  | toMatrix
  | subMat
deriving Repr, DecidableEq

namespace Builtin

/-- Every built-in function once. -/
def all : List Builtin :=
  [abs, clamp, min, max, normalizeTo, getChannelCount, getChannel, replaceChannel,
    combineChannels, rgbReplace, alphaReplace, getRgb, toImage, toMatrix, subMat]

theorem mem_all (f : Builtin) : f ∈ all := by
  cases f <;> decide

/-- The name of a function. -/
def name : Builtin → String
  | abs => "Abs"
  | clamp => "Clamp"
  | min => "Min"
  | max => "Max"
  | normalizeTo => "NormalizeTo"
  | getChannelCount => "GetChannelCount"
  | getChannel => "GetChannel"
  | replaceChannel => "ReplaceChannel"
  | combineChannels => "CombineChannels"
  | rgbReplace => "RGBReplace"
  | alphaReplace => "AlphaReplace"
  | getRgb => "GetRGB"
  | toImage => "ToImage"
  | toMatrix => "ToMatrix"
  | subMat => "SubMat"

/-- The function with a given name, in any case. -/
def ofName? (s : String) : Option Builtin :=
  all.find? fun f => Text.sameLetters f.name s

theorem ofName?_name (f : Builtin) : ofName? f.name = some f := by
  cases f <;> decide +kernel

/-- The signatures of a function, one for each of its overloads. -/
def overloads : Builtin → List String
  | abs => ["[Number] Abs([Number] value)", "[Mat] Abs([Mat] value)"]
  | clamp => [
      "[Number] Clamp([Number] value, [Number] lowerBound, [Number] upperBound)",
      "[Mat] Clamp([Mat] value, [Number] lowerBound, [Number] upperBound)",
      "[Mat] Clamp([Mat] value, [Mat] lowerBound, [Mat] upperBound)"]
  | min => [
      "[Number] Min([Number] values...)",
      "[Number] Min([Mat] value)",
      "[Mat] Min([Mat] values...)"]
  | max => [
      "[Number] Max([Number] values...)",
      "[Number] Max([Mat] value)",
      "[Mat] Max([Mat] values...)"]
  | normalizeTo => ["[Mat] NormalizeTo([Mat] mat, [Number] normMax)"]
  | getChannelCount => ["[Number] GetChannelCount([Mat] mat)"]
  | getChannel =>
    ["[1-Channel Mat] GetChannel([n-Channel Mat] mat, [Number (>= 0, < n)] channel)"]
  | replaceChannel => [
      "[n-Channel Mat] ReplaceChannel([n-Channel Mat] mat, [Number (>= 0, < n)] channel, " ++
        "[1-Channel Mat] replaceMat)"]
  | combineChannels => ["[Mat] CombineChannels([Mat] mats...)"]
  | rgbReplace => ["[4-Channel Mat] RGBReplace([4-Channel Mat] mat, [3-Channel Mat] rgb)"]
  | alphaReplace => ["[4-Channel Mat] AlphaReplace([4-Channel Mat] mat, [1-Channel Mat] alpha)"]
  | getRgb => ["[3-Channel Mat] GetRGB([3-Channel or 4-Channel Mat] mat)"]
  | toImage => ["[Image] ToImage([1-Channel, 3-Channel or 4-Channel Mat] mat)"]
  | toMatrix => ["[Matrix] ToMatrix([Mat] mat)"]
  | subMat => [
      "[Number] SubMat([Mat] mat, [Number] y, [Number] x, [Number] channel)",
      "[Mat] SubMat([Mat] mat, [Number/Range] y, [Number/Range] x (optional), " ++
        "[Number/Range] channel (optional))"]

/-- All signatures of a function in one line. -/
def describe (f : Builtin) : String :=
  " | ".intercalate f.overloads

/-- How many arguments a function takes, in words. -/
def arity : Builtin → String
  | abs | getChannelCount | getRgb | toImage | toMatrix => "1"
  | normalizeTo | getChannel | rgbReplace | alphaReplace => "2"
  | clamp | replaceChannel => "3"
  | min | max | combineChannels => "1 or more"
  | subMat => "2 to 4"

end Builtin

end PixelCalc
