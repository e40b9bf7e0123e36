import Mathlib.Algebra.Group.Nat.Defs
import PixelCalc.Proofs.Builtin.Selection

/-!
# Numbers as indices

A number is taken for an index in two places: as a selector of its own, and as a bound of a range. The
two take different ways, the one through signed words and an addition, the other through unsigned words
that the number is held to and a subtraction. They lead to the same index, or both to none.

- `Place`: the index that an integer stands for on an axis.
- `indexOn?_iff_place`, `resolve?_iff_place`: both ways find exactly that index.
- `OffAxis`: a number that stands for no index.
- `Word`: both ways in words of 64 bits, where a step that overflows ends the computation;
  `Word.indexOn?_eq` and `Word.restOn?_eq` say that none does.
- `conversions_agree`: the two ways compared.
-/

namespace PixelCalc

open Builtin

variable {x : Float} {len i : Nat} {k : Int} {b : RangeBound} {s : Span}

/-! ### The index that an integer stands for -/

/-- Where an integer stands on an axis of length `len`: a negative one is counted from the end. -/
def place (len : Nat) (k : Int) : Int :=
  if k < 0 then k + len else k

/-- The integer stands for the index on an axis of length `len`. -/
structure Place (len : Nat) (k : Int) (i : Nat) : Prop where
  eq : (i : Int) = place len k
  lt : i < len

/-- An integer stands on the axis iff it counts from the start to an index there, or back from the
end by no more than the length. -/
theorem place_bounds_iff : 0 ≤ place len k ∧ place len k < len ↔ -len ≤ k ∧ k < len := by
  unfold place
  split <;> omega

theorem place_toNat (h : 0 ≤ place len k ∧ place len k < len) : Place len k (place len k).toNat :=
  ⟨Int.toNat_of_nonneg h.1, by omega⟩

/-- The index that an integer stands for is its place. -/
theorem Place.bounds (h : Place len k i) : 0 ≤ place len k ∧ place len k < len := by
  obtain ⟨heq, hlt⟩ := h
  omega

/-- The first way: a selector is the index at the place of the nearest integer. -/
theorem indexOn?_iff_place :
    indexOn? x len = some i ↔ ∃ k, Binary64.nearestInt? x = some k ∧ Place len k i := by
  rw [indexOn?_eq_some_iff]
  constructor
  · intro h
    cases h with
    | number hx hi hlt => exact ⟨_, hx, hi, hlt⟩
  · rintro ⟨k, hx, hi, hlt⟩
    exact .number hx hi hlt

/-- The index of a number is where the nearest integer stands, if that is on the axis. -/
theorem indexOn?_eq_place (hx : Binary64.nearestInt? x = some k) :
    indexOn? x len =
      if 0 ≤ place len k ∧ place len k < len then some (place len k).toNat else none := by
  by_cases h : 0 ≤ place len k ∧ place len k < len
  · rw [if_pos h]
    exact indexOn?_iff_place.mpr ⟨k, hx, place_toNat h⟩
  · rw [if_neg h]
    refine Option.eq_none_iff_forall_ne_some.mpr fun i hi => ?_
    obtain ⟨k', hx', hplace⟩ := indexOn?_iff_place.mp hi
    cases hx.symm.trans hx'
    exact h hplace.bounds

/-- A bound that is held to the largest index starts a range where the integer stands. -/
theorem starts_iff_place (hlen : len < maxIndex) :
    (if k < 0 then RangeBound.fromEnd (min k.natAbs maxIndex)
      else .fromStart (min k.natAbs maxIndex)).Starts len i ∧ i < len ↔ Place len k i := by
  -- counted from the end or from the start; the largest index is behind every axis, so holding the
  -- number to it changes nothing on the axis
  by_cases hneg : k < 0
  · rw [if_pos hneg]
    constructor
    · rintro ⟨hstart, hlt⟩
      cases hstart with
      | fromEnd h => exact ⟨by rw [place, if_pos hneg]; omega, hlt⟩
    · rintro ⟨heq, hlt⟩
      rw [place, if_pos hneg] at heq
      exact ⟨.fromEnd (by omega), hlt⟩
  · rw [if_neg hneg]
    constructor
    · rintro ⟨hstart, hlt⟩
      cases hstart with
      | fromStart => exact ⟨by rw [place, if_neg hneg]; omega, by omega⟩
    · rintro ⟨heq, hlt⟩
      rw [place, if_neg hneg] at heq
      have hmin : min k.natAbs maxIndex = i := by omega
      rw [hmin]
      exact ⟨.fromStart i, hlt⟩

/-- The range from a number on resolves to the indices from where the number stands. -/
theorem resolve?_iff_place (hlen : len < maxIndex) :
    (∃ b, RangeBound.ofNumber? x = some b ∧
      IndexRange.resolve? ⟨b, .unbounded⟩ len = some s) ↔
    ∃ k, Binary64.nearestInt? x = some k ∧ Place len k s.start ∧ s.stop = len := by
  have hresolve (b : RangeBound) : IndexRange.resolve? ⟨b, .unbounded⟩ len = some s ↔
      (b.Starts len s.start ∧ s.start < len) ∧ s.stop = len := by
    rw [IndexRange.resolve?_eq_some_iff]
    constructor
    · rintro ⟨hstart, hstop, hlt⟩
      cases hstop
      exact ⟨⟨hstart, hlt⟩, rfl⟩
    · rintro ⟨⟨hstart, hlt⟩, hstop⟩
      rw [hstop]
      exact ⟨hstart, .unbounded, hlt⟩
  simp only [hresolve]
  constructor
  · rintro ⟨b, hb, hstart, hstop⟩
    obtain ⟨k, hk, rfl⟩ := Option.map_eq_some_iff.mp hb
    exact ⟨k, hk, (starts_iff_place hlen).mp hstart, hstop⟩
  · rintro ⟨k, hk, hplace, hstop⟩
    exact ⟨_, Option.map_eq_some_iff.mpr ⟨k, hk, rfl⟩, (starts_iff_place hlen).mpr hplace, hstop⟩

/-! ### Numbers that stand for no index -/

/-- The number is NaN or infinite, or the nearest integer lies outside the axis. -/
def OffAxis (len : Nat) (x : Float) : Prop :=
  x.isFinite = false ∨ ∃ k, Binary64.nearestInt? x = some k ∧ (k < -len ∨ len ≤ k)

/-- A number is off an axis, or the nearest integer stands for an index. -/
theorem not_offAxis_iff :
    ¬OffAxis len x ↔ ∃ k i, Binary64.nearestInt? x = some k ∧ Place len k i := by
  constructor
  · intro h
    cases hx : Binary64.nearestInt? x with
    | none =>
      refine absurd (.inl ?_) h
      cases hfinite : x.isFinite with
      | false => rfl
      | true => simp [Binary64.nearestInt?, hfinite] at hx
    | some k =>
      by_cases hk : k < -len ∨ len ≤ k
      · exact absurd (.inr ⟨k, hx, hk⟩) h
      · exact ⟨k, _, rfl, place_toNat (place_bounds_iff.mpr (by omega))⟩
  · rintro ⟨k, i, hx, hplace⟩ (hfinite | ⟨k', hx', hk⟩)
    · simp [Binary64.nearestInt?, hfinite] at hx
    · cases hx.symm.trans hx'
      have hbounds := place_bounds_iff.mp hplace.bounds
      omega

/-! ### In words of 64 bits -/

namespace Word

/-- Why a computation in words ends early. -/
inductive Overflow where
  /-- A sum has no word. -/
  | sum
  /-- A word of one sign has no equal of the other sign. -/
  | cast
deriving Repr, DecidableEq

/-- The sum of two signed words. -/
def add (a b : Int64) : Except Overflow Int64 :=
  if a.toBitVec.saddOverflow b.toBitVec then .error .sum else .ok (a + b)

/-- An unsigned word as a signed one. -/
def toSigned (n : UInt64) : Except Overflow Int64 :=
  if n.toInt64.toInt = n.toNat then .ok n.toInt64 else .error .cast

/-- A signed word as an unsigned one. -/
def toUnsigned (k : Int64) : Except Overflow UInt64 :=
  if (k.toUInt64.toNat : Int) = k.toInt then .ok k.toUInt64 else .error .cast

/-- The difference of two unsigned words, if it is not negative. -/
def checkedSub? (a b : UInt64) : Option UInt64 :=
  if a.toBitVec.usubOverflow b.toBitVec then none else some (a - b)

/-- The signed word of the nearest integer. Of the integers without one only `2^63` is let through,
and becomes the largest word. -/
def nearest? (x : Float) : Option Int64 :=
  match Binary64.nearestInt? x with
  | some k => if k.natAbs ≤ 2 ^ 63 then some (.ofIntClamp k) else none
  | none => none

/-- The position of a word: the length is added to a negative one. -/
def position (stop k : Int64) : Except Overflow Int64 :=
  if k < 0 then add stop k else .ok k

/-- The index that a word stands for on an axis of a length. -/
def onAxis (k : Int64) (len : UInt64) : Except Overflow (Option UInt64) := do
  let stop ← toSigned len
  let i ← position stop k
  if 0 ≤ i ∧ i < stop then (toUnsigned i).map some else .ok none

/-- The index of a number that selects alone. -/
def indexOn? (x : Float) (len : UInt64) : Except Overflow (Option UInt64) :=
  match nearest? x with
  | some k => onAxis k len
  | none => .ok none

/-- The position where a range starts that has the number as its bound. Integers too large for a word
become the largest word. -/
def start? (x : Float) (len : UInt64) : Option UInt64 :=
  match Binary64.nearestInt? x with
  | some k =>
    if k < 0 then checkedSub? len (.ofNatClamp k.natAbs) else some (.ofNatClamp k.natAbs)
  | none => none

/-- The start and the end of a range from a number on. -/
def restOn? (x : Float) (len : UInt64) : Option (UInt64 × UInt64) :=
  match start? x len with
  | some start => if start < len then some (start, len) else none
  | none => none

variable {c d w : Int64}

/-- The sum is exact where a word can hold it. -/
theorem add_eq_ok (hlow : Int64.minValue.toInt ≤ c.toInt + d.toInt)
    (hhigh : c.toInt + d.toInt ≤ Int64.maxValue.toInt) :
    ∃ sum, add c d = .ok sum ∧ sum.toInt = c.toInt + d.toInt := by
  have hmin : Int64.minValue.toInt = -0x8000000000000000 := rfl
  have hmax : Int64.maxValue.toInt = 0x7FFFFFFFFFFFFFFF := rfl
  have hfits : ¬c.toBitVec.saddOverflow d.toBitVec = true := by
    have htoInt (w : Int64) : w.toBitVec.toInt = w.toInt := rfl
    simp only [BitVec.saddOverflow, htoInt, Bool.or_eq_true, decide_eq_true_eq]
    omega
  exact ⟨c + d, if_neg hfits, BitVec.toInt_add_of_not_saddOverflow hfits⟩

theorem toNat_ofNat (h : i < 2 ^ 64) : (UInt64.ofNat i).toNat = i :=
  UInt64.toNat_ofNat_of_lt' h

/-- A length below the bound of signed words is one, so the cast does not overflow. -/
theorem toSigned_eq_ok (hlen : len < 2 ^ 63) :
    ∃ stop, toSigned (.ofNat len) = .ok stop ∧ stop.toInt = len := by
  have hword : (UInt64.ofNat len).toNat = len := toNat_ofNat (by omega)
  have hvalue : (UInt64.ofNat len).toInt64.toInt = len := by
    show (UInt64.ofNat len).toBitVec.toInt = len
    rw [BitVec.toInt_eq_toNat_of_lt]
    · exact congrArg Int.ofNat hword
    · show 2 * (UInt64.ofNat len).toNat < _
      omega
  exact ⟨_, if_pos (by rw [hvalue, hword]), hvalue⟩

/-- An index is not negative, so the cast back does not overflow either. -/
theorem toUnsigned_eq_ok (h : w.toInt = i) : toUnsigned w = .ok (.ofNat i) := by
  have hnonneg : 0 ≤ w := by
    rw [Int64.le_iff_toInt_le, h]
    exact Int.natCast_nonneg i
  have hvalue : w.toUInt64.toNat = i := by
    rw [Int64.toNat_toUInt64_of_le hnonneg]
    show w.toInt.toNat = i
    rw [h, Int.toNat_natCast]
  have hword : w.toUInt64 = .ofNat i := by
    rw [← hvalue, UInt64.ofNat_toNat]
  rw [toUnsigned, if_pos (by rw [hvalue, h]), hword]

/-- The length is added to negative words only, so that the sum lies between the two. -/
theorem position_eq_ok {stop : Int64} (hstop : stop.toInt = len) :
    ∃ i, position stop w = .ok i ∧ i.toInt = place len w.toInt := by
  have hmin : Int64.minValue.toInt = -0x8000000000000000 := rfl
  have hlow := w.minValue_le_toInt
  have hhigh := stop.toInt_le
  have hneg : w < 0 ↔ w.toInt < 0 := Int64.lt_iff_toInt_lt
  by_cases h : w.toInt < 0
  · obtain ⟨i, hi, hvalue⟩ := add_eq_ok (c := stop) (d := w) (by omega) (by omega)
    exact ⟨i, (if_pos (hneg.mpr h)).trans hi, by rw [place, if_pos h]; omega⟩
  · exact ⟨w, if_neg (mt hneg.mp h), (if_neg h).symm⟩

/-- No step overflows on the way from a word to its index. -/
theorem onAxis_eq (hlen : len < 2 ^ 63) :
    onAxis w (.ofNat len) =
      .ok (if 0 ≤ place len w.toInt ∧ place len w.toInt < len then
        some (.ofNat (place len w.toInt).toNat) else none) := by
  obtain ⟨stop, hstop, hstopInt⟩ := toSigned_eq_ok hlen
  obtain ⟨i, hi, hiInt⟩ := position_eq_ok (w := w) hstopInt
  have hinside : 0 ≤ i ∧ i < stop ↔ 0 ≤ i.toInt ∧ i.toInt < len := by
    rw [Int64.le_iff_toInt_le, Int64.lt_iff_toInt_lt, hstopInt]
    rfl
  rw [← hiInt]
  unfold onAxis
  rw [hstop]
  show (position stop w >>= fun i =>
    if 0 ≤ i ∧ i < stop then (toUnsigned i).map some else .ok none) = _
  rw [hi]
  show (if 0 ≤ i ∧ i < stop then (toUnsigned i).map some else .ok none) = _
  by_cases h : 0 ≤ i.toInt ∧ i.toInt < len
  · rw [if_pos (hinside.mpr h), if_pos h, toUnsigned_eq_ok (i := i.toInt.toNat) (by omega)]
    rfl
  · rw [if_neg (mt hinside.mp h), if_neg h]

/-- The word of a nearest integer is this integer, unless that is `2^63`. -/
theorem nearest?_eq (hx : Binary64.nearestInt? x = some k) :
    nearest? x = none ∧ 2 ^ 63 < k.natAbs ∨
      ∃ w, nearest? x = some w ∧ (w.toInt = k ∨ k = 0x8000000000000000 ∧ w.toInt = k - 1) := by
  have hmin : Int64.minValue.toInt = -0x8000000000000000 := rfl
  have hmax : Int64.maxValue.toInt = 0x7FFFFFFFFFFFFFFF := rfl
  unfold nearest?
  rw [hx]
  dsimp only
  by_cases h : k.natAbs ≤ 2 ^ 63
  · rw [if_pos h]
    refine .inr ⟨_, rfl, ?_⟩
    -- the one integer that is let through without a word becomes the largest word
    by_cases hlarge : k = 0x8000000000000000
    · subst hlarge
      exact .inr ⟨rfl, rfl⟩
    · exact .inl (Int64.toInt_ofIntClamp (by omega) (by omega))
  · rw [if_neg h]
    exact .inl ⟨rfl, by omega⟩

/-- **A number that selects alone is taken for its index without an overflow.** -/
theorem indexOn?_eq (x : Float) (hlen : len < 2 ^ 63) :
    indexOn? x (.ofNat len) = .ok ((Builtin.indexOn? x len).map .ofNat) := by
  cases hx : Binary64.nearestInt? x with
  | none =>
    have hnone : Builtin.indexOn? x len = none := by
      rw [Builtin.indexOn?, hx]
    rw [indexOn?, nearest?, hx, hnone]
    rfl
  | some k =>
    rw [indexOn?_eq_place hx, indexOn?]
    rcases nearest?_eq hx with ⟨hnone, hlarge⟩ | ⟨w, hw, hvalue⟩
    · have houtside : ¬(0 ≤ place len k ∧ place len k < len) := by
        rw [place_bounds_iff]
        omega
      rw [hnone, if_neg houtside]
      rfl
    · rw [hw]
      show onAxis w _ = _
      rw [onAxis_eq hlen]
      rcases hvalue with hvalue | ⟨hlarge, hvalue⟩
      · rw [hvalue]
        split <;> rfl
      · -- `2^63` and the largest word are both behind every axis
        rw [if_neg (by rw [place_bounds_iff]; omega), if_neg (by rw [place_bounds_iff]; omega)]
        rfl

/-- The difference of words is that of the numbers, and is missing where it would be negative. -/
theorem checkedSub?_eq {n : Nat} (hlen : len < 2 ^ 64) (hn : n < 2 ^ 64) :
    checkedSub? (.ofNat len) (.ofNat n) = if n ≤ len then some (.ofNat (len - n)) else none := by
  have hover : (UInt64.ofNat len).toBitVec.usubOverflow (UInt64.ofNat n).toBitVec =
      decide (len < n) := by
    show decide ((UInt64.ofNat len).toNat < (UInt64.ofNat n).toNat) = _
    rw [toNat_ofNat hlen, toNat_ofNat hn]
  rw [checkedSub?, hover]
  by_cases h : n ≤ len
  · rw [if_neg (by simpa using h), if_pos h, UInt64.ofNat_sub h]
  · rw [if_pos (by simpa using h), if_neg h]

/-- A word that an integer is held to is the largest index if the integer is too large. -/
theorem ofNatClamp_eq (n : Nat) : UInt64.ofNatClamp n = .ofNat (min n maxIndex) := by
  have hmax : maxIndex = UInt64.size - 1 := rfl
  have hsize : UInt64.size = 0x10000000000000000 := rfl
  apply UInt64.toNat_inj.mp
  rw [toNat_ofNat (by omega)]
  by_cases h : n < UInt64.size
  · rw [UInt64.toNat_ofNatClamp_of_lt h]
    omega
  · rw [UInt64.toNat_ofNatClamp_of_le (Nat.le_of_not_lt h)]
    omega

/-- The position where a range starts that has the number as its bound. -/
theorem start?_eq (x : Float) (hlen : len < 2 ^ 64) :
    start? x (.ofNat len) =
      ((RangeBound.ofNumber? x).bind fun b => b.position? len 0).map .ofNat := by
  have hmax : maxIndex < 2 ^ 64 := by decide
  unfold start? RangeBound.ofNumber?
  cases hx : Binary64.nearestInt? x with
  | none => rfl
  | some k =>
    simp only [ofNatClamp_eq, Option.map_some, Option.bind_some]
    by_cases hneg : k < 0
    · rw [if_pos hneg, if_pos hneg, checkedSub?_eq hlen (by omega)]
      show _ = (if min k.natAbs maxIndex ≤ len then some (len - min k.natAbs maxIndex) else none).map _
      split <;> rfl
    · rw [if_neg hneg, if_neg hneg]
      rfl

/-- The position of a bound that a number gives fits a word. -/
theorem position?_lt {start : Nat} (hlen : len < 2 ^ 64) (hb : RangeBound.ofNumber? x = some b)
    (h : b.position? len 0 = some start) : start < 2 ^ 64 := by
  have hmax : maxIndex < 2 ^ 64 := by decide
  obtain ⟨k, -, rfl⟩ := Option.map_eq_some_iff.mp hb
  have hstart := RangeBound.position?_eq_some_iff.mp h
  by_cases hneg : k < 0
  · rw [if_pos hneg] at hstart
    cases hstart
    omega
  · rw [if_neg hneg] at hstart
    cases hstart
    omega

/-- The indices from a number on are found in words as well. The only step that could overflow is a
subtraction that is not done then. -/
theorem restOn?_eq (x : Float) (hlen : len < 2 ^ 64) :
    restOn? x (.ofNat len) =
      ((RangeBound.ofNumber? x).bind fun b => IndexRange.resolve? ⟨b, .unbounded⟩ len).map
        fun s => (.ofNat s.start, .ofNat s.stop) := by
  unfold restOn?
  rw [start?_eq x hlen]
  cases hb : RangeBound.ofNumber? x with
  | none => rfl
  | some b =>
    simp only [Option.bind_some, IndexRange.resolve?]
    cases hstart : b.position? len 0 with
    | none => rfl
    | some start =>
      have hlt : UInt64.ofNat start < UInt64.ofNat len ↔ start < len := by
        rw [UInt64.lt_iff_toNat_lt, toNat_ofNat (position?_lt hlen hb hstart), toNat_ofNat hlen]
      show (if UInt64.ofNat start < UInt64.ofNat len then _ else none) =
        (if start < len then some (Span.mk start len) else none).map _
      by_cases h : start < len
      · rw [if_pos (hlt.mpr h), if_pos h]
        rfl
      · rw [if_neg (mt hlt.mp h), if_neg h]
        rfl

end Word

/-! ### The two ways compared -/

/-- **A number is the same index alone and as a bound.** It selects an index alone if and only if the
range from it on has its indices from there to the end of the axis. Both ways fail on NaN, on the
infinities and on what rounds to an integer outside the axis, and on nothing else. In words of 64 bits
both come to the same results without an overflow. -/
theorem conversions_agree (x : Float) (len : Nat) (hlen : len < 2 ^ 63) :
    (∀ i, indexOn? x len = some i ↔ ∃ b, RangeBound.ofNumber? x = some b ∧
      IndexRange.resolve? ⟨b, .unbounded⟩ len = some ⟨i, len⟩) ∧
    (indexOn? x len = none ↔ OffAxis len x) ∧
    ((∀ b, RangeBound.ofNumber? x = some b →
      IndexRange.resolve? ⟨b, .unbounded⟩ len = none) ↔ OffAxis len x) ∧
    Word.indexOn? x (.ofNat len) = .ok ((indexOn? x len).map .ofNat) ∧
    Word.restOn? x (.ofNat len) = ((RangeBound.ofNumber? x).bind fun b =>
      IndexRange.resolve? ⟨b, .unbounded⟩ len).map fun s => (.ofNat s.start, .ofNat s.stop) := by
  have hmax : len < maxIndex := Nat.lt_of_lt_of_le hlen (by decide)
  refine ⟨fun i => ?_, ?_, ?_, Word.indexOn?_eq x hlen, Word.restOn?_eq x (by omega)⟩
  -- both ways lead to the place of the nearest integer
  · rw [indexOn?_iff_place, resolve?_iff_place hmax]
    exact exists_congr fun k => and_congr_right fun _ => (and_iff_left rfl).symm
  -- and both fail iff there is no such place: first as a selector
  · constructor
    · intro hnone
      refine Classical.byContradiction fun h => ?_
      obtain ⟨k, i, hx, hplace⟩ := not_offAxis_iff.mp h
      cases hnone.symm.trans (indexOn?_iff_place.mpr ⟨k, hx, hplace⟩)
    · intro h
      refine Option.eq_none_iff_forall_ne_some.mpr fun i hi => ?_
      obtain ⟨k, hx, hplace⟩ := indexOn?_iff_place.mp hi
      exact not_offAxis_iff.mpr ⟨k, i, hx, hplace⟩ h
  -- then as a bound
  · constructor
    · intro hnone
      refine Classical.byContradiction fun h => ?_
      obtain ⟨k, i, hx, hplace⟩ := not_offAxis_iff.mp h
      obtain ⟨b, hb, hresolve⟩ := (resolve?_iff_place hmax (s := ⟨i, len⟩)).mpr ⟨k, hx, hplace, rfl⟩
      cases (hnone b hb).symm.trans hresolve
    · intro h b hb
      refine Option.eq_none_iff_forall_ne_some.mpr fun s hs => ?_
      obtain ⟨k, hx, hplace, -⟩ := (resolve?_iff_place hmax).mp ⟨b, hb, hs⟩
      exact not_offAxis_iff.mpr ⟨k, s.start, hx, hplace⟩ h

/-- A half below zero is the first index. The number `2^63` becomes the largest word, and no axis is
long enough for that one. -/
theorem conversions_agree_half :
    indexOn? (-0.5) 3 = some 0 ∧
      (∃ b, RangeBound.ofNumber? (-0.5) = some b ∧
        IndexRange.resolve? ⟨b, .unbounded⟩ 3 = some ⟨0, 3⟩) ∧
      Word.indexOn? 9223372036854775808 (.ofNat 0x7FFFFFFFFFFFFFFF) = .ok none := by
  obtain ⟨hagree, -⟩ := conversions_agree (-0.5) 3 (by decide)
  obtain ⟨-, hnone, -, hword, -⟩ :=
    conversions_agree 9223372036854775808 0x7FFFFFFFFFFFFFFF (by decide)
  have hhalf : Binary64.nearestInt? (-0.5) = some 0 := by decide
  have hlarge : Binary64.nearestInt? 9223372036854775808 = some 0x8000000000000000 := by decide
  have hindex : indexOn? (-0.5) 3 = some 0 := indexOn?_eq_place hhalf
  refine ⟨hindex, (hagree 0).mp hindex, ?_⟩
  rw [hword, hnone.mpr (.inr ⟨_, hlarge, .inr (by decide)⟩)]
  rfl

end PixelCalc
