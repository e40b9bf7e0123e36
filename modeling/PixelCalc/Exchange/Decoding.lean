import PixelCalc.Exchange.Failure
import PixelCalc.Value.Basic

/-!
# Values from JSON

A number, a truth value or `null` is a value as it stands. A matrix is an array of rows of pixels, or
an object with the fields `type`, `rows`, `cols`, `channels` and `data`; its data are rows of pixels
again or one flat array, the channels of a pixel side by side.

- `nestedMatrix`: rows of pixels, a pixel being a number or an array of channels. The first row and
  its first pixel set the number of columns and channels.
- `objectMatrix`: a matrix object.
- `Json.toValue`: the value of a document.
-/

namespace PixelCalc
namespace Decoding

/-- A matrix that a description gives. -/
def described : Except MatrixError Matrix → Except Failure Matrix
  | .ok m => .ok m
  | .error e => .error (.badMatrix e)

/-- The number that a document is. -/
def number (j : Json) : Except Failure Float :=
  match j.number? with
  | some x => .ok x
  | none => .error (.badValue (.notNumber j))

/-- The numbers that documents give, one after the other, up to the first failure. -/
def collect (f : Json → Except Failure (List Float)) : List Json → Except Failure (List Float)
  | [] => .ok []
  | j :: rest => do
    let xs ← f j
    let ys ← collect f rest
    return xs ++ ys

/-- The numbers that documents are. -/
def numbers : List Json → Except Failure (List Float) :=
  collect fun j => do return [← number j]

/-! ### Rows of pixels -/

/-- The channels of a pixel. -/
def pixelNumbers (channels : Nat) : Json → Except Failure (List Float)
  | .array parts =>
    if parts.length = channels then numbers parts
    else .error (.badValue (.pixelChannels channels (.array parts)))
  | j =>
    if channels = 1 then numbers [j] else .error (.badValue (.pixelChannels channels j))

/-- The numbers of a row of pixels. -/
def rowNumbers (cols channels : Nat) : Json → Except Failure (List Float)
  | .array pixels =>
    if pixels.length = cols then collect (pixelNumbers channels) pixels
    else .error (.badValue (.rowLength cols))
  | _ => .error (.badValue (.rowLength cols))

/-- The number of pixels in the first row. -/
def firstCols (rows : List Json) : Nat :=
  match rows with
  | .array pixels :: _ => pixels.length
  | _ => 0

/-- The number of channels of the first pixel. -/
def firstChannels (rows : List Json) : Nat :=
  match rows with
  | .array (.array parts :: _) :: _ => parts.length
  | _ => 1

/-- The plain matrix of rows of pixels. -/
def nestedMatrix (rows : List Json) : Except Failure Matrix := do
  let cols := firstCols rows
  let channels := firstChannels rows
  let values ← collect (rowNumbers cols channels) rows
  described (Matrix.ofValues .plain rows.length cols channels values)

/-! ### Matrix objects -/

/-- The kind of a matrix object: plain numbers, unless its `type` names another one. -/
def kindField (fields : Table Json) : Except Failure MatrixKind :=
  match fields.find? "type" with
  | none => .ok .plain
  | some (.text name) =>
    match MatrixKind.ofName? name with
    | some kind => .ok kind
    | none => .error (.badValue (.unknownKind name))
  | some j => .error (.badValue (.kindNotText j))

/-- The size under a key of a matrix object, if it has one. -/
def sizeField (fields : Table Json) (key : String) : Except Failure (Option Nat) :=
  match fields.find? key with
  | none => .ok none
  | some j =>
    match j.natural? with
    | some n => .ok (some n)
    | none => .error (.badValue (.notSize key j))

/-- The channels of flat data: as stated, as the kind prescribes, or as many as the data have for
each pixel. -/
def flatChannels (stated? : Option Nat) (kind : MatrixKind) (pixels values : Nat) : Nat :=
  match stated?, kind.fixedChannels? with
  | some channels, _ => channels
  | none, some channels => channels
  | none, none => values / pixels

/-- The matrix of flat data. -/
def flatMatrix (fields : Table Json) (kind : MatrixKind) (data : List Json) :
    Except Failure Matrix := do
  let rows? ← sizeField fields "rows"
  let cols? ← sizeField fields "cols"
  match rows?, cols? with
  | some rows, some cols =>
    if UInt64.size ≤ rows * cols then
      throw (.badValue (.tooManyPixels rows cols))
    let channels? ← sizeField fields "channels"
    let channels := flatChannels channels? kind (rows * cols) data.length
    let values ← numbers data
    described (Matrix.ofValues kind rows cols channels values)
  | _, _ => throw (.badValue .noSizes)

/-- The first item of the data is an array, so the data are rows. -/
def isNested : List Json → Bool
  | .array _ :: _ => true
  | _ => false

/-- The matrix of an object. Nested data give the sizes themselves. -/
def objectMatrix (fields : Table Json) : Except Failure Matrix := do
  let kind ← kindField fields
  match fields.find? "data" with
  | some (.array data) =>
    if isNested data then
      let m ← nestedMatrix data
      described (m.withKind kind)
    else
      flatMatrix fields kind data
  | _ => throw (.badValue .noData)

end Decoding

/-- The value that a JSON document describes. -/
def Json.toValue : Json → Except Failure Value
  | .null => .ok .nothing
  | .bool b => .ok (.boolean b)
  | .integer n => .ok (.number (Binary64.ofInteger n))
  | .real x => .ok (.number x)
  | .text s => .error (.badValue (.textNotValue s))
  | .array rows => do return .matrix (← Decoding.nestedMatrix rows)
  | .object fields => do return .matrix (← Decoding.objectMatrix fields)

end PixelCalc
