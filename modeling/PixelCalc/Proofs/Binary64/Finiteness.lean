import Mathlib.Algebra.Group.Nat.Defs
import PixelCalc.Proofs.Binary64.Equality

/-!
# Integers of 64 bits are finite doubles

Rounding moves the exponent of a number by no more than the number of its bits, and a double runs
out of range only at exponents that are far from those of 64-bit integers.

- `Bounded l k`: not too many bits in the significand, not too large an exponent.
- `bounded_roundWithAccuracy`, `bounded_unpack_pack`: rounding and packing keep bounds.
- `isFinite_ofInteger`: an integer of 64 bits is a finite double.
-/

namespace PixelCalc
namespace Binary64

open Float.Model (UnpackedFloat Format)
open Float.Model.UnpackedFloat

/-! ### Rounding -/

/-- A finite number whose significand has at most `l` bits and whose exponent is at most `k`. -/
inductive Bounded (l : Nat) (k : Int) : UnpackedFloat → Prop
  | zero (s : Sign) : Bounded l k (.zero s)
  | finite {s : Sign} {m : Nat} {e : Int} {hpos : 0 < m} (hm : m < 2 ^ l) (he : e ≤ k) :
      Bounded l k (.finite s m e hpos)

variable {l l' m n : Nat} {k k' e : Int} {x y : UnpackedFloat}

theorem Bounded.isFinite (h : Bounded l k x) : x.isFinite = true := by
  cases h <;> rfl

theorem Bounded.neg (h : Bounded l k x) : Bounded l k x.neg := by
  cases h with
  | zero s => exact .zero (-s)
  | finite hm he => exact .finite hm he

theorem Bounded.mono (h : Bounded l k x) (hk : k ≤ k') : Bounded l k' x := by
  cases h with
  | zero s => exact .zero s
  | finite hm he => exact .finite hm (Int.le_trans he hk)

/-- Shifting to the right makes no significand larger. -/
theorem mantissa_shiftRight_le (em : ExtendedMantissa) (n : Nat) :
    (em >>> n).mantissa ≤ em.mantissa := by
  show (n.repeat ExtendedMantissa.shiftRightOne em).mantissa ≤ em.mantissa
  induction n with
  | zero => exact Nat.le_refl _
  | succ n ih => exact Nat.le_trans (Nat.div_le_self _ 2) ih

theorem mantissa_ofMantissaAndAccuracy (m : Nat) (accuracy : Accuracy) :
    (ExtendedMantissa.ofMantissaAndAccuracy m accuracy).mantissa = m := by
  unfold ExtendedMantissa.ofMantissaAndAccuracy
  split <;> rfl

/-- Rounding adds at most one in the last place. -/
theorem roundedMantissa_le (em : ExtendedMantissa) : em.roundedMantissa ≤ em.mantissa + 1 := by
  unfold ExtendedMantissa.roundedMantissa Accuracy.roundToNearestEven
  split <;> omega

/-- A shift to the target exponent moves the exponent by no more than the bits of the number. -/
theorem shiftToTargetExponent_bounds (accuracy : Accuracy) (hm : m < 2 ^ l) (he : e ≤ k)
    (hk : 0 ≤ k) :
    (shiftToTargetExponent Format.binary64 m e accuracy).1.mantissa ≤ m ∧
      (shiftToTargetExponent Format.binary64 m e accuracy).2 ≤ k + l := by
  constructor
  · have hunshifted := mantissa_ofMantissaAndAccuracy m accuracy
    exact Nat.le_trans (mantissa_shiftRight_le _ _) (Nat.le_of_eq hunshifted)
  -- a shift to the right shortens the mantissa by as many bits as it adds to the exponent
  · have hbits : m.log2 ≤ l := by
      by_cases hzero : m = 0
      · rw [hzero]
        exact Nat.zero_le l
      · exact Nat.le_of_lt ((Nat.log2_lt hzero).mpr hm)
    show e + ((max ((m.log2 : Int) + 1 + e - 53) (-1074) - e).toNat : Int) ≤ k + l
    omega

/-- Rounding keeps a number bounded, with one more bit in its mantissa and an exponent that has
grown by the bits that were shifted out. -/
theorem bounded_roundWithAccuracy (s : Sign) (accuracy : Accuracy) (hm : m < 2 ^ l) (he : e ≤ k)
    (hk : 0 ≤ k) :
    Bounded (l + 1) (k + 2 * l + 1) (roundWithAccuracy Format.binary64 s m e accuracy) := by
  obtain ⟨hshifted, he₁⟩ := shiftToTargetExponent_bounds accuracy hm he hk
  have hrounded := roundedMantissa_le (shiftToTargetExponent Format.binary64 m e accuracy).1
  have hpow : 2 ^ (l + 1) = 2 * 2 ^ l := Nat.pow_succ'
  have hm₁ : (shiftToTargetExponent Format.binary64 m e accuracy).1.roundedMantissa < 2 ^ (l + 1) := by
    omega
  -- the rounded mantissa is shifted once more, as it may have grown by a bit
  obtain ⟨hm₂, he₂⟩ := shiftToTargetExponent_bounds .exact hm₁ he₁ (by omega)
  unfold roundWithAccuracy
  dsimp only
  by_cases hzero : (shiftToTargetExponent Format.binary64
      (shiftToTargetExponent Format.binary64 m e accuracy).1.roundedMantissa
      (shiftToTargetExponent Format.binary64 m e accuracy).2 .exact).1.mantissa = 0
  · rw [dif_pos hzero]
    exact .zero s
  · rw [dif_neg hzero]
    exact .finite (by omega) (by omega)

/-- A product has the bits of both factors, and is rounded. -/
theorem Bounded.mul (hx : Bounded l k x) (hy : Bounded l' k' y) (hk : 0 ≤ k + k') :
    Bounded (l + l' + 1) (k + k' + 2 * ((l + l' : Nat) : Int) + 1)
      (UnpackedFloat.mul Format.binary64 x y) := by
  cases hx with
  | zero s => cases hy <;> exact .zero _
  | @finite s m e _ hm he =>
    cases hy with
    | zero => exact .zero _
    | @finite t n f _ hn hf =>
      have hproduct : m * n < 2 ^ (l + l') := by
        rw [Nat.pow_add]
        exact Nat.mul_lt_mul'' hm hn
      exact bounded_roundWithAccuracy (s * t) .exact hproduct (by omega) hk

/-- The significand of a whole number is filled up to the bits of a double, of which it has at
least one. -/
theorem bounded_round (s : Sign) (hm : m < 2 ^ l) :
    Bounded (l + 53) (2 * l + 105) (UnpackedFloat.round Format.binary64 s m 0) := by
  have hfilled (shift : Nat) (hshift : shift ≤ 52) : m <<< shift < 2 ^ (l + 52) := by
    rw [Nat.shiftLeft_eq, Nat.pow_add]
    exact Nat.mul_lt_mul_of_lt_of_le hm (Nat.pow_le_pow_right (by decide) hshift) (by decide)
  have hrounded := bounded_roundWithAccuracy s .exact
    (hfilled (0 - max ((m.log2 : Int) + 1 + 0 - 53) (-1074)).toNat (by omega))
    (show 0 - ((0 - max ((m.log2 : Int) + 1 + 0 - 53) (-1074)).toNat : Int) ≤ 0 by omega)
    (Int.le_refl 0)
  have hk : 0 + 2 * ((l + 52 : Nat) : Int) + 1 = 2 * l + 105 := by
    omega
  rw [hk] at hrounded
  exact hrounded

/-- A natural number of so many bits is bounded. -/
theorem bounded_ofNat (h : n < 2 ^ l) :
    Bounded (l + 53) (2 * l + 105) (UnpackedFloat.ofNat Format.binary64 n) := by
  unfold UnpackedFloat.ofNat UnpackedFloat.ofInt UnpackedFloat.normalize
  split
  · refine bounded_round .negative ?_
    omega
  · exact .zero .positive
  · exact bounded_round .positive h

/-! ### Packing -/

theorem exponentBias_eq : Format.binary64.exponentBias = 1023 :=
  rfl

/-- Far from the largest exponent the parts of a number are packed one by one. -/
theorem exists_packComponents (h : Bounded l k x) (hk : 0 ≤ k) (hrange : k ≤ 970) :
    ∃ (s : Sign) (exponent : BitVec 11) (mantissa : BitVec 52),
      pack Format.binary64 x = packComponents Format.binary64 s exponent mantissa ∧
        (exponent.toNat : Int) ≤ k + 1075 := by
  cases h with
  | zero s => exact ⟨s, 0#11, 0#52, rfl, show ((0 : Nat) : Int) ≤ k + 1075 by omega⟩
  | @finite s m e _ hm he =>
    unfold pack
    dsimp only
    rw [exponentBias_eq, if_neg (by omega)]
    -- a normal number has its exponent stored, a subnormal one has none
    split
    · refine ⟨s, BitVec.ofNat 11 (e + (1023 : Nat) + (52 : Nat)).toNat, BitVec.ofNat 52 m, rfl, ?_⟩
      have hle := Nat.mod_le (e + (1023 : Nat) + (52 : Nat)).toNat (2 ^ 11)
      rw [BitVec.toNat_ofNat]
      omega
    · exact ⟨s, 0#11, BitVec.ofNat 52 m, rfl, show ((0 : Nat) : Int) ≤ k + 1075 by omega⟩

/-- Bits whose exponent is not the largest one are a finite number. -/
theorem bounded_unpack {b : BitVec 64} (hk : 0 ≤ k) (hrange : k ≤ 970)
    (hexponent : ((@unpackExponent Format.binary64 b).toNat : Int) ≤ k + 1075) :
    Bounded 53 k (unpack Format.binary64 b) := by
  have hall : @unpackExponent Format.binary64 b ≠ -1#_ := by
    intro heq
    have hmax : (@unpackExponent Format.binary64 b).toNat = 2047 := by
      rw [heq]
      rfl
    omega
  unfold unpack
  dsimp only
  rw [if_neg hall, exponentBias_eq]
  by_cases hsmall : @unpackExponent Format.binary64 b = 0#_
  · rw [if_pos hsmall]
    by_cases hzero : @unpackMantissa Format.binary64 b = 0#_
    · rw [dif_pos hzero]
      exact .zero _
    · rw [dif_neg hzero]
      have hmantissa : (@unpackMantissa Format.binary64 b).toNat < 2 ^ 52 := BitVec.isLt _
      have hnone : (@unpackExponent Format.binary64 b).toNat = 0 := by
        rw [hsmall]
        rfl
      exact .finite (by omega) (by omega)
  · rw [if_neg hsmall]
    exact .finite (BitVec.isLt _) (by omega)

/-- Packing keeps a bounded number finite. -/
theorem bounded_unpack_pack (h : Bounded l k x) (hk : 0 ≤ k) (hrange : k ≤ 970) :
    Bounded 53 k (unpack Format.binary64 (pack Format.binary64 x)) := by
  obtain ⟨s, exponent, mantissa, hpack, hexponent⟩ := exists_packComponents h hk hrange
  rw [hpack]
  refine bounded_unpack hk hrange ?_
  rw [unpackExponent_packComponents]
  exact hexponent

/-! ### Integers -/

theorem bounded_toFloat (n : UInt64) : Bounded 53 233 n.toFloat.toModel.unpack :=
  bounded_unpack_pack (bounded_ofNat n.toNat_lt) (by decide) (by decide)

/-- What a whole number is multiplied by on its way to a double. -/
theorem bounded_one : Bounded 53 0 (Float.ofBits 0x3FF0000000000000).toModel.unpack :=
  bounded_unpack (by decide) (by decide) (by decide)

/-- Larger numbers are scaled by a power of ten, which is one for integers. -/
theorem bounded_ofScientific (h : n < 2 ^ 64) :
    Bounded 119 237 (UnpackedFloat.ofScientific Format.binary64 n 0) := by
  have hbits : (2 ^ Format.binary64.exponentBits : Int) = 2048 := rfl
  have hshifted : n <<< 53 < 2 ^ (64 + 53) := by
    rw [Nat.shiftLeft_eq, Nat.pow_add]
    exact Nat.mul_lt_mul_of_pos_right h (by decide)
  unfold UnpackedFloat.ofScientific
  rw [hbits]
  by_cases hzero : n = 0
  · rw [dif_pos hzero]
    exact .zero .positive
  · rw [dif_neg hzero, if_neg (by omega), if_neg (by omega), if_pos (by omega)]
    -- the number is read as a mantissa that is shifted up, times one
    have hfactor : Bounded 117 0 (.finite .positive (n <<< 53) (-53) (by omega)) :=
      .finite hshifted (by decide)
    have hone : Bounded 1 0 (.finite .positive 1 0 Nat.one_pos) :=
      .finite (by decide) (by decide)
    exact hfactor.mul hone (by decide)

/-- A natural number of 64 bits is a finite float. -/
theorem bounded_ofNatural (h : n < 2 ^ 64) : Bounded 53 446 (ofNatural n).toModel.unpack := by
  unfold ofNatural Float.ofScientific
  split
  · have hmul := (bounded_toFloat n.toUInt64).mul bounded_one (by decide)
    exact bounded_unpack_pack hmul (by decide) (by decide)
  · have hslow := (bounded_ofScientific h).mono (show 237 ≤ 446 by decide)
    exact bounded_unpack_pack hslow (by decide) (by decide)

/-- An integer whose magnitude has 64 bits is a finite double. -/
theorem isFinite_ofInteger {n : Int} (h : n.natAbs < UInt64.size) :
    (ofInteger n).isFinite = true := by
  cases n with
  | ofNat n => exact (bounded_ofNatural h).isFinite
  | negSucc n =>
    have hneg := (bounded_ofNatural (n := n + 1) h).neg
    exact (bounded_unpack_pack hneg (by decide) (by decide)).isFinite

end Binary64
end PixelCalc
