import PixelCalc.Builtin.Arguments

/-!
# Parts of matrices

`SubMat(mat, y, x, channel)`, the function behind the brackets of an index. Every selector is a
number or a range on its axis, and a missing one covers the axis. Three numbers select one entry,
anything else a matrix.
-/

namespace PixelCalc
namespace Builtin

/-- What a selector selects on its axis. -/
inductive Selection where
  | index (i : Nat)
  | span (s : Span)
deriving Repr, DecidableEq

/-- The indices selected. -/
def Selection.toSpan : Selection → Span
  | index i => .single i
  | span s => s

/-- The index that a number selects on an axis: the nearest integer, counted from the end where it
is negative. -/
def indexOn? (x : Float) (len : Nat) : Option Nat :=
  match Binary64.nearestInt? x with
  | some (.ofNat n) => if n < len then some n else none
  | some (.negSucc n) => if n < len then some (len - (n + 1)) else none
  | none => none

/-- What a value selects on an axis of length `len`. -/
def select (axis : Axis) (len : Nat) : Value → Except Fault Selection
  | .number x =>
    match indexOn? x len with
    | some i => .ok (.index i)
    | none => .error (.selectorOutside axis (Value.number x).text len)
  | .range r =>
    match r.resolve? len with
    | some s => .ok (.span s)
    | none => .error (.selectorOutside axis r.text len)
  | v => .error (.argumentType subMat axis.parameter v.text "[Number/Range]")

/-- What a selector that may be missing selects. -/
def selectOr (axis : Axis) (len : Nat) (selector? : Option Value) : Except Fault Selection :=
  select axis len (selector?.getD (.range .full))

/-- The kind of a part of a matrix: that of the matrix if it accepts the channels of the part. -/
def partKind (kind : MatrixKind) (channels : Nat) : MatrixKind :=
  if kind.accepts channels then kind else .plain

/-- The entry or the part of a matrix that three selections select. -/
def partOf (m : Matrix) : Selection → Selection → Selection → Except Fault Value
  | .index y, .index x, .index channel =>
    match m.get? y x channel with
    | some entry => .ok (.number entry)
    | none => .error .noEntry
  | y, x, channel =>
    finish subMat
      (m.block (partKind m.kind channel.toSpan.length) y.toSpan x.toSpan channel.toSpan).check

/-- The part of `mat` that one to three selectors select. -/
def subMatOf (mat y : Value) (x? channel? : Option Value) : Except Fault Value := do
  let m ← matrixArgument subMat "mat" mat
  let y ← selectOr .y m.rows (some y)
  let x ← selectOr .x m.cols x?
  let channel ← selectOr .channel m.channels channel?
  partOf m y x channel

/-- `SubMat(mat, y, x, channel)`. -/
def runSubMat : List Value → Except Fault Value
  | [mat, y] => subMatOf mat y none none
  | [mat, y, x] => subMatOf mat y (some x) none
  | [mat, y, x, channel] => subMatOf mat y (some x) (some channel)
  | args => .error (.argumentCount subMat args.length)

end Builtin
end PixelCalc
