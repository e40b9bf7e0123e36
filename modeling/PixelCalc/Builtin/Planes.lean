import PixelCalc.Builtin.Arguments

/-!
# Functions of channels

`GetChannelCount`, `GetChannel`, `ReplaceChannel`, `CombineChannels`, `RGBReplace`, `AlphaReplace`
and `GetRGB` take matrices apart by their channels and put them together.
-/

namespace PixelCalc
namespace Builtin

/-- `GetChannelCount(mat)`. -/
def runGetChannelCount (args : List Value) : Except Fault Value := do
  let m ← matrixArgument getChannelCount "mat" (← one getChannelCount args)
  return .number (Binary64.ofNatural m.channels)

/-- The channel that a number selects: the nearest integer, counted from 0 only. -/
def channelIndex (f : Builtin) (x : Float) (m : Matrix) : Except Fault Nat :=
  match Binary64.nearestInt? x with
  | some (.ofNat n) => if n < m.channels then .ok n else .error (.noChannel f x m.text m.channels)
  | _ => .error (.noChannel f x m.text m.channels)

/-- `GetChannel(mat, channel)`: one channel as a plain matrix. -/
def runGetChannel (args : List Value) : Except Fault Value := do
  let (mat, channel) ← two getChannel args
  let m ← matrixArgument getChannel "mat" mat
  let x ← numberArgument getChannel "channel" channel
  let i ← channelIndex getChannel x m
  return .matrix (← built (m.channelBlock .plain (.single i)).generic)

/-- The kind of a matrix whose numbers are replaced: what were a mask may hold any numbers. -/
def kindAfterReplacing (kind : MatrixKind) : MatrixKind :=
  if kind = .mask then .plain else kind

/-- `ReplaceChannel(mat, channel, replaceMat)`. -/
def runReplaceChannel (args : List Value) : Except Fault Value := do
  let (mat, channel, replaceMat) ← three replaceChannel args
  let m ← matrixArgument replaceChannel "mat" mat
  let x ← numberArgument replaceChannel "channel" channel
  let r ← matrixArgument replaceChannel "replaceMat" replaceMat
  let i ← channelIndex replaceChannel x m
  checkChannels replaceChannel "replaceMat" r 1
  checkSize replaceChannel "replaceMat" r m
  finish replaceChannel (m.replaceChannels (kindAfterReplacing m.kind) i r).check

/-- Matrix arguments, as many as there are. -/
def matrixArguments (f : Builtin) : List Value → Except Fault (List Matrix)
  | [] => .ok []
  | v :: rest => return (← matrixArgument f "mat" v) :: (← matrixArguments f rest)

/-- All matrices have the size of the first one. -/
def checkSizes (f : Builtin) (first : Matrix) : List Matrix → Except Fault Unit
  | [] => .ok ()
  | m :: rest => do
    checkSize f "mat" m first
    checkSizes f first rest

/-- How many channels matrices have in all. -/
def totalChannels : List Matrix → Nat
  | [] => 0
  | m :: rest => m.channels + totalChannels rest

/-- `CombineChannels(mats…)`: at most four channels in all. -/
def runCombineChannels (args : List Value) : Except Fault Value := do
  match ← matrixArguments combineChannels args with
  | [] => throw (.argumentCount combineChannels 0)
  | first :: rest =>
    checkSizes combineChannels first rest
    let total := totalChannels (first :: rest)
    if 4 < total then
      throw (.tooManyChannels total)
    return .matrix (← built (first.stack rest))

/-- `RGBReplace(mat, rgb)`: the first three of four channels. -/
def runRgbReplace (args : List Value) : Except Fault Value := do
  let (mat, rgb) ← two rgbReplace args
  let m ← matrixArgument rgbReplace "mat" mat
  let r ← matrixArgument rgbReplace "rgb" rgb
  checkChannels rgbReplace "mat" m 4
  checkChannels rgbReplace "rgb" r 3
  checkSize rgbReplace "rgb" r m
  finish rgbReplace (m.replaceChannels m.kind 0 r).check

/-- `AlphaReplace(mat, alpha)`: the last of four channels. -/
def runAlphaReplace (args : List Value) : Except Fault Value := do
  let (mat, alpha) ← two alphaReplace args
  let m ← matrixArgument alphaReplace "mat" mat
  let r ← matrixArgument alphaReplace "alpha" alpha
  checkChannels alphaReplace "mat" m 4
  checkChannels alphaReplace "alpha" r 1
  checkSize alphaReplace "alpha" r m
  finish alphaReplace (m.replaceChannels m.kind 3 r).check

/-- `GetRGB(mat)`: a matrix of three channels as it is, one of four without its alpha channel. -/
def runGetRgb (args : List Value) : Except Fault Value := do
  let m ← matrixArgument getRgb "mat" (← one getRgb args)
  if m.channels = 3 then
    return .matrix m
  else if m.channels = 4 then
    finish getRgb (m.channelBlock m.kind.withoutAlpha ⟨0, 3⟩).check
  else
    throw (.argumentType getRgb "mat" m.text "a 3-channel or 4-channel [Mat]")

end Builtin
end PixelCalc
