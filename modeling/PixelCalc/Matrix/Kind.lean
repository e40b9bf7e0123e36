import PixelCalc.Text.Casing

/-!
# Kinds of matrices

A matrix carries a tag that says how its channels are meant. Most tags fix the number of channels.
-/

namespace PixelCalc

/-- What the channels of a matrix stand for. -/
inductive MatrixKind where
  /-- Plain numbers. -/
  | plain
  /-- An image whose colours are unknown. -/
  | unknownImage
  | bgr
  | bgra
  | rgb
  | rgba
  | hsv
  | hsva
  | gray
  | grayAlpha
  /-- The result of a comparison, 0 or 255 at each pixel. -/
  | mask
deriving Repr, DecidableEq

namespace MatrixKind

/-- Every kind once. -/
def all : List MatrixKind :=
  [plain, unknownImage, bgr, bgra, rgb, rgba, hsv, hsva, gray, grayAlpha, mask]

theorem mem_all (kind : MatrixKind) : kind ∈ all := by
  cases kind <;> decide

/-- The name of a kind. -/
def name : MatrixKind → String
  | plain => "Matrix"
  | unknownImage => "UnknownImage"
  | bgr => "BGR"
  | bgra => "BGRA"
  | rgb => "RGB"
  | rgba => "RGBA"
  | hsv => "HSV"
  | hsva => "HSVA"
  | gray => "Gray"
  | grayAlpha => "GrayA"
  | mask => "Mask"

/-- The kind with a given name, in any case. -/
def ofName? (s : String) : Option MatrixKind :=
  all.find? fun kind => Text.sameLetters kind.name s

/-- Every kind is found under its own name. -/
theorem ofName?_name (kind : MatrixKind) : ofName? kind.name = some kind := by
  cases kind <;> decide +kernel

/-- The number of channels that a kind prescribes. -/
def fixedChannels? : MatrixKind → Option Nat
  | plain | unknownImage => none
  | bgr | rgb | hsv => some 3
  | bgra | rgba | hsva => some 4
  | grayAlpha => some 2
  | gray | mask => some 1

/-- A matrix of this kind may have so many channels; where the kind prescribes none, 1 to 4. -/
def accepts (kind : MatrixKind) (channels : Nat) : Bool :=
  match kind.fixedChannels? with
  | some n => channels == n
  | none => 1 ≤ channels && channels ≤ 4

/-- Every kind but plain numbers is an image. -/
def isImage (kind : MatrixKind) : Bool :=
  kind != plain

/-- The kind of an image of which only the number of channels is known. -/
def imageOfChannels? : Nat → Option MatrixKind
  | 1 => some gray
  | 2 => some grayAlpha
  | 3 => some bgr
  | 4 => some bgra
  | _ => none

/-- The same colours without the alpha channel. -/
def withoutAlpha : MatrixKind → MatrixKind
  | bgra => bgr
  | rgba => rgb
  | hsva => hsv
  | grayAlpha => gray
  | kind => kind

/-- No kind has more than four channels, or none. -/
theorem accepts_bounds {kind : MatrixKind} {channels : Nat} (h : kind.accepts channels = true) :
    1 ≤ channels ∧ channels ≤ 4 := by
  cases kind <;> simp [accepts, fixedChannels?] at h <;> omega

end MatrixKind

end PixelCalc
