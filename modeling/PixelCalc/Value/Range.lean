import PixelCalc.Binary64.Rounding

/-!
# Index ranges

- `RangeBound`: an end of a range, open or counted from either end of an axis.
- `IndexRange`: a half-open range whose ends may be left open.
- `IndexRange.resolve?`: the indices that a range covers on an axis of a given length.
-/

namespace PixelCalc

/-- The largest index that a bound can hold. -/
def maxIndex : Nat :=
  UInt64.size - 1

/-- One end of a range. -/
inductive RangeBound where
  /-- The range goes on to the end of the axis. -/
  | unbounded
  | fromStart (n : Nat)
  | fromEnd (n : Nat)
deriving Repr, DecidableEq

namespace RangeBound

/-- The bound that a number stands for: the nearest integer, a half going to the even neighbour,
counted from the end where it is negative. Integers too large for an index become the largest
index. NaN and the infinities are no bound. -/
def ofNumber? (x : Float) : Option RangeBound :=
  (Binary64.nearestInt? x).map fun n =>
    if n < 0 then fromEnd (min n.natAbs maxIndex) else fromStart (min n.natAbs maxIndex)

/-- The text of a bound: an open one has none. -/
def text : RangeBound → String
  | unbounded => ""
  | fromStart n => toString n
  | fromEnd n => "^" ++ toString n

/-- The position of a bound on an axis, an open bound being at `whenOpen`. A bound counted from the
end may lie before the axis. -/
def position? (len whenOpen : Nat) : RangeBound → Option Nat
  | unbounded => some whenOpen
  | fromStart n => some n
  | fromEnd n => if n ≤ len then some (len - n) else none

end RangeBound

/-- The indices from `start` up to `stop`, which is left out. -/
structure Span where
  start : Nat
  stop : Nat
deriving Repr, DecidableEq

/-- How many indices a span holds. -/
def Span.length (s : Span) : Nat :=
  s.stop - s.start

/-- A span of one index. -/
def Span.single (i : Nat) : Span :=
  ⟨i, i + 1⟩

/-- All indices of an axis. -/
def Span.all (len : Nat) : Span :=
  ⟨0, len⟩

/-- A half-open range of indices. -/
structure IndexRange where
  start : RangeBound
  stop : RangeBound
deriving Repr, DecidableEq

namespace IndexRange

/-- The range over a whole axis. -/
def full : IndexRange :=
  ⟨.unbounded, .unbounded⟩

/-- The text of a range, which is also its source. -/
def text (r : IndexRange) : String :=
  r.start.text ++ ".." ++ r.stop.text

/-- The position of the end of a range: one counted from the start stops at the end of the axis. -/
def stopPosition? (len : Nat) : RangeBound → Option Nat
  | .fromStart n => some (min n len)
  | bound => bound.position? len len

/-- The indices of a range on an axis. A range without indices, or with a bound before the axis, has
none. -/
def resolve? (r : IndexRange) (len : Nat) : Option Span :=
  match r.start.position? len 0, stopPosition? len r.stop with
  | some start, some stop => if start < stop then some ⟨start, stop⟩ else none
  | _, _ => none

/-- A resolved range is not empty and lies on the axis. -/
theorem resolve?_bounds {r : IndexRange} {len : Nat} {s : Span} (h : r.resolve? len = some s) :
    s.start < s.stop ∧ s.stop ≤ len := by
  obtain ⟨start, stop⟩ := r
  unfold resolve? at h
  split at h
  · rename_i a b _ hstop
    split at h
    · rename_i hlt
      cases h
      refine ⟨hlt, ?_⟩
      show b ≤ len
      cases stop with
      | unbounded => simp [stopPosition?, RangeBound.position?] at hstop; omega
      | fromStart n => simp [stopPosition?] at hstop; omega
      | fromEnd n => simp [stopPosition?, RangeBound.position?] at hstop; omega
    · cases h
  · cases h

end IndexRange

end PixelCalc
