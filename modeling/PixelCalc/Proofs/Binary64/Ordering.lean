import PixelCalc.Proofs.Binary64.Extremes

/-!
# The order of doubles

The bits of a double without the sign, read as a natural number, grow with its magnitude, because the
exponent stands in front of the fraction. With the sign before it this number gives the order of all
doubles but NaN.

- `rank`, `sign`: the bits of a double without the sign, and the sign.
- `Canonical`: the significands and exponents that finite doubles are unpacked to, with their ranks.
- `Ranked`: the sign and the rank of an unpacked double; `ranked` says that these are those of the
  double.
- `place`: the rank with the sign; `lt_iff_place_lt` says that the order is that of the places.
- `place_foldl_larger`: no number is above the larger one of all.
-/

namespace PixelCalc
namespace Binary64

open Float.Model (UnpackedFloat Format)
open Float.Model.UnpackedFloat

variable {b : BitVec 64} {s t : Sign} {m m' k k' : Nat} {e e' : Int} {u v : UnpackedFloat}
  {x y : Float}

/-! ### Ranks -/

/-- The bits without the sign: the exponent and behind it the fraction. -/
def rankOfBits (b : BitVec 64) : Nat :=
  (@unpackExponent Format.binary64 b).toNat * hiddenBit +
    (@unpackMantissa Format.binary64 b).toNat

/-- The rank of the infinities, which is above those of all finite numbers. -/
def infinityRank : Nat :=
  0x7FF * hiddenBit

/-- A finite number other than zero as it is unpacked: all bits of the significand are in use, unless
the exponent is the least one. Its rank counts the numbers below it. -/
structure Canonical (m : Nat) (e : Int) (k : Nat) : Prop where
  pos : 0 < m
  upper : m < 2 * hiddenBit
  lower : hiddenBit ≤ m ∨ e = -1074
  exponent : -1074 ≤ e
  rank : (k : Int) = (e + 1074) * hiddenBit + m

/-- The sign and the rank of an unpacked double. -/
inductive Ranked : UnpackedFloat → Sign → Nat → Prop
  | zero (s : Sign) : Ranked (.zero s) s 0
  | infinity (s : Sign) : Ranked (.infinity s) s infinityRank
  | finite {s : Sign} {m : Nat} {e : Int} {k : Nat} {hm : 0 < m} (h : Canonical m e k)
      (hk : k < infinityRank) : Ranked (.finite s m e hm) s k

/-- Only the infinities and NaN have the largest exponent. -/
theorem exponent_ne_of_unpack {hm : 0 < m} (h : unpack Format.binary64 b = .finite s m e hm) :
    @unpackExponent Format.binary64 b ≠ -1#_ := by
  intro hall
  unfold unpack at h
  dsimp only at h
  rw [if_pos hall] at h
  by_cases hmantissa : @unpackMantissa Format.binary64 b = 0#_
  · rw [if_pos hmantissa] at h
    cases h
  · rw [if_neg hmantissa] at h
    cases h

theorem rankOfBits_lt (h : @unpackExponent Format.binary64 b ≠ -1#_) :
    rankOfBits b < infinityRank := by
  have hexponent : (@unpackExponent Format.binary64 b).toNat < 0x800 := BitVec.isLt _
  have hfraction : (@unpackMantissa Format.binary64 b).toNat < hiddenBit := BitVec.isLt _
  have hall : (@unpackExponent Format.binary64 b).toNat ≠ 0x7FF := fun heq =>
    h (BitVec.eq_of_toNat_eq heq)
  unfold rankOfBits infinityRank hiddenBit at *
  omega

/-- A finite double is canonical at the rank that its bits spell. -/
theorem Finite.canonical (h : Finite b s m e) (hm : 0 < m) : Canonical m e (rankOfBits b) := by
  have hfraction : (@unpackMantissa Format.binary64 b).toNat < hiddenBit := BitVec.isLt _
  have hparts := h.parts
  refine ⟨hm, ?_, ?_, ?_, ?_⟩ <;> unfold rankOfBits hiddenBit at * <;> omega

/-- The sign and the rank of a double that is not NaN are read off its bits. -/
theorem ranked_unpack (h : (unpack Format.binary64 b).isNaN = false) :
    Ranked (unpack Format.binary64 b) (Sign.ofBitVec (@unpackSign Format.binary64 b))
      (rankOfBits b) := by
  have hb := unpacked b
  cases hu : unpack Format.binary64 b with
  | notANumber =>
    rw [hu] at h
    cases h
  | zero s =>
    rw [hu] at hb
    cases hb with
    | zero hexponent hmantissa =>
      have hrank : rankOfBits b = 0 := by
        rw [rankOfBits, hexponent, hmantissa]
        rfl
      rw [hrank]
      exact .zero _
  | infinity s =>
    rw [hu] at hb
    cases hb with
    | infinity hexponent hmantissa =>
      have hrank : rankOfBits b = infinityRank := by
        rw [rankOfBits, hexponent, hmantissa]
        rfl
      rw [hrank]
      exact .infinity _
  | finite s m e hm =>
    have hfinite := finite_of_unpack hu
    rw [hfinite.sign]
    exact .finite (hfinite.canonical hm) (rankOfBits_lt (exponent_ne_of_unpack hu))

/-! ### Comparing by rank -/

theorem Canonical.rank_pos (h : Canonical m e k) : 0 < k := by
  obtain ⟨hpos, -, -, hexponent, hrank⟩ := h
  unfold hiddenBit at hrank
  omega

/-- Only zero has no magnitude. -/
theorem Ranked.eq_zero (h : Ranked u s k) (hk : k = 0) : u = .zero s := by
  cases h with
  | zero => rfl
  | infinity => exact absurd hk (by decide)
  | finite h => exact absurd hk (Nat.ne_of_gt h.rank_pos)

/-- Exponents come first in the order, as they do in the rank. -/
theorem Canonical.compare_eq (h : Canonical m e k) (h' : Canonical m' e' k') :
    (compare e e').then (compare m m') = compare k k' := by
  obtain ⟨-, hupper, hlower, hexponent, hrank⟩ := h
  obtain ⟨-, hupper', hlower', hexponent', hrank'⟩ := h'
  unfold hiddenBit at *
  -- a larger exponent has the larger rank whatever the mantissas are; these decide only at equal
  -- exponents
  obtain hlt | rfl | hgt := Int.lt_trichotomy e e'
  · have hk : k < k' := by omega
    rw [Int.compare_eq_lt.mpr hlt, Nat.compare_eq_lt.mpr hk]
    rfl
  · obtain hlt | rfl | hgt := Nat.lt_trichotomy m m'
    · have hk : k < k' := by omega
      rw [Int.compare_eq_eq.mpr rfl, Nat.compare_eq_lt.mpr hlt, Nat.compare_eq_lt.mpr hk]
      rfl
    · have hk : k = k' := by omega
      rw [Int.compare_eq_eq.mpr rfl, Nat.compare_eq_eq.mpr rfl, Nat.compare_eq_eq.mpr hk]
      rfl
    · have hk : k' < k := by omega
      rw [Int.compare_eq_eq.mpr rfl, Nat.compare_eq_gt.mpr hgt, Nat.compare_eq_gt.mpr hk]
      rfl
  · have hk : k' < k := by omega
    rw [Int.compare_eq_gt.mpr hgt, Nat.compare_eq_gt.mpr hk]
    rfl

theorem Canonical.compare_lt_iff (h : Canonical m e k) (h' : Canonical m' e' k') :
    (compare e e').then (compare m m') = .lt ↔ k < k' := by
  rw [h.compare_eq h', Nat.compare_eq_lt]

theorem Canonical.compare_swap_lt_iff (h : Canonical m e k) (h' : Canonical m' e' k') :
    ((compare e e').then (compare m m')).swap = .lt ↔ k' < k := by
  rw [h.compare_eq h', Ordering.swap_eq_lt, Nat.compare_eq_gt]

/-- Numbers of different signs are ordered by sign, those of one sign by their ranks. -/
theorem Ranked.compare_lt_iff (h : Ranked u s k) (h' : Ranked v t k') :
    u.compare v = some .lt ↔ s.apply k < t.apply k' := by
  have hpos : 0 < infinityRank := by decide
  cases h with
  | zero =>
    cases h' with
    | finite h' =>
      have hpos' := h'.rank_pos
      cases s <;> cases t <;> dsimp only [UnpackedFloat.compare, Sign.apply] <;> simp <;> omega
    | _ => cases s <;> cases t <;> dsimp only [UnpackedFloat.compare, Sign.apply] <;> simp <;> omega
  | infinity =>
    cases h' with
    | infinity =>
      cases s <;> cases t <;> dsimp only [UnpackedFloat.compare, Sign.apply] <;> simp [compare]
      omega
    | _ => cases s <;> cases t <;> dsimp only [UnpackedFloat.compare, Sign.apply] <;> simp <;> omega
  | finite h =>
    have hpos := h.rank_pos
    cases h' with
    | finite h' =>
      have hpos' := h'.rank_pos
      cases s <;> cases t <;> dsimp only [UnpackedFloat.compare, Sign.apply] <;> rw [Option.some.injEq]
      · rw [h.compare_swap_lt_iff h']
        omega
      · simp only [true_iff]
        omega
      · simp only [reduceCtorEq, false_iff]
        omega
      · rw [h.compare_lt_iff h']
        omega
    | _ => cases s <;> cases t <;> dsimp only [UnpackedFloat.compare, Sign.apply] <;> simp <;> omega

/-! ### Places -/

/-- The sign bit of a double. -/
def sign (x : Float) : Sign :=
  Sign.ofBitVec (@unpackSign Format.binary64 x.toModel.toBits.toBitVec)

/-- The bits of a double without the sign. -/
def rank (x : Float) : Nat :=
  rankOfBits x.toModel.toBits.toBitVec

/-- The rank with the sign of the double. -/
def place (x : Float) : Int :=
  (sign x).apply (rank x)

theorem ranked (h : x.isNaN = false) : Ranked x.toModel.unpack (sign x) (rank x) :=
  ranked_unpack h

/-- The order of two numbers is that of their places. -/
theorem lt_iff_place_lt (hx : x.isNaN = false) (hy : y.isNaN = false) :
    x < y ↔ place x < place y := by
  rw [lt_iff_compare]
  exact (ranked hx).compare_lt_iff (ranked hy)

/-- Numbers are compared by their places, and NaN with none. -/
theorem not_lt_of_place_le (h : x.isNaN = false → y.isNaN = false → place y ≤ place x) :
    ¬ x < y := by
  cases hx : x.isNaN with
  | true => exact (not_lt_of_isNaN hx).2
  | false =>
    cases hy : y.isNaN with
    | true => exact (not_lt_of_isNaN hy).1
    | false =>
      rw [lt_iff_place_lt hx hy]
      exact Int.not_lt.mpr (h hx hy)

/-- What is not less than a number has no smaller place. -/
theorem place_le_of_not_lt (hx : x.isNaN = false) (hy : y.isNaN = false) (h : ¬ x < y) :
    place y ≤ place x :=
  Int.not_lt.mp fun hlt => h ((lt_iff_place_lt hx hy).mpr hlt)

theorem neg_iff (hx : x.isNaN = false) : x < 0 ↔ sign x = .negative ∧ 0 < rank x := by
  have hzero : place 0 = 0 := by decide
  rw [lt_iff_place_lt hx (by decide), hzero, place]
  cases sign x <;> simp [Sign.apply]

theorem pos_iff (hx : x.isNaN = false) : 0 < x ↔ sign x = .positive ∧ 0 < rank x := by
  have hzero : place 0 = 0 := by decide
  rw [lt_iff_place_lt (by decide) hx, hzero, place]
  cases sign x <;> simp [Sign.apply]

/-- A number without magnitude compares as equal to zero. -/
theorem beq_zero (hx : x.isNaN = false) (h : rank x = 0) : (x == 0) = true := by
  show (x.toModel.unpack.compare (.zero .positive) == some .eq) = true
  rw [(ranked hx).eq_zero h]
  rfl

/-- No number is above the larger one of all, with which it is compared. -/
theorem place_foldl_larger {xs : List Float} (hx : x.isNaN = false)
    (hxs : ∀ y ∈ xs, y.isNaN = false) :
    place x ≤ place (xs.foldl larger x) ∧ ∀ y ∈ xs, place y ≤ place (xs.foldl larger x) := by
  induction xs generalizing x with
  | nil => exact ⟨Int.le_refl _, fun y hy => absurd hy List.not_mem_nil⟩
  | cons y xs ih =>
    obtain ⟨hy, hxs⟩ := List.forall_mem_cons.mp hxs
    have hlarger : larger x y = if x < y then y else x := by
      rw [larger, if_neg (Bool.eq_false_iff.mp hx)]
    rw [List.foldl_cons, hlarger, List.forall_mem_cons]
    -- the induction is on the numbers to come, the greatest so far takes the place of the seed
    by_cases hlt : x < y
    · rw [if_pos hlt]
      obtain ⟨hfirst, hrest⟩ := ih hy hxs
      have hplace := (lt_iff_place_lt hx hy).mp hlt
      exact ⟨Int.le_trans (Int.le_of_lt hplace) hfirst, hfirst, hrest⟩
    · rw [if_neg hlt]
      obtain ⟨hfirst, hrest⟩ := ih hx hxs
      exact ⟨hfirst, Int.le_trans (place_le_of_not_lt hx hy hlt) hfirst, hrest⟩

end Binary64
end PixelCalc
