import Mathlib.Algebra.Group.Nat.Defs
import PixelCalc.Proofs.Binary64.Equality

/-!
# Whole numbers below 2^53 are exact doubles

A significand that fills all bits of a double is rounded to itself, and packing keeps it. Shifted to
the left, every whole number below `2^53` has such a significand.

- `Full`: a significand with all bits, and an exponent that a double can have.
- `roundWithAccuracy_full`, `unpack_pack_full`: rounding and packing keep it.
- `IsWhole`: a double is a whole number or its negation; `isWhole_ofNatural`, `IsWhole.neg`.
- `IsWhole.nearestInt?`: the integer nearest to a whole number is that number.
- `ReadAs`: what the literal of a number is nearest to; `readAs_small` for numbers below `2^53`.
-/

namespace PixelCalc
namespace Binary64

open Float.Model (UnpackedFloat Format)
open Float.Model.UnpackedFloat

variable {b : BitVec 64} {m n : Nat} {e : Int} {s : Sign} {x : Float}

/-- A significand that fills the bits of a double, with an exponent that a double can have. -/
structure Full (m : Nat) (e : Int) : Prop where
  lower : hiddenBit ≤ m
  upper : m < 2 * hiddenBit
  exponent : -1074 ≤ e ∧ e ≤ 970

namespace Full

theorem pos (h : Full m e) : 0 < m :=
  Nat.lt_of_lt_of_le (by decide) h.lower

theorem log2_mul (h : Full m e) (n : Nat) : (m * 2 ^ n).log2 = n + 52 := by
  have hpow : 0 < 2 ^ n := Nat.two_pow_pos n
  refine (Nat.log2_eq_iff (Nat.ne_of_gt (Nat.mul_pos h.pos hpow))).mpr ⟨?_, ?_⟩
  · rw [Nat.pow_add, Nat.mul_comm]
    exact Nat.mul_le_mul_right _ h.lower
  · rw [Nat.add_assoc, Nat.pow_add, Nat.mul_comm]
    exact Nat.mul_lt_mul_of_pos_left h.upper hpow

end Full

/-! ### Rounding -/

/-- Zeros that are shifted out leave no trace. -/
theorem shiftRight_exact (m n : Nat) :
    ExtendedMantissa.ofMantissaAndAccuracy (m * 2 ^ n) .exact >>> n = ⟨m, false, false⟩ := by
  show n.repeat ExtendedMantissa.shiftRightOne ⟨m * 2 ^ n, false, false⟩ = ⟨m, false, false⟩
  induction n generalizing m with
  | zero => rw [Nat.pow_zero, Nat.mul_one]; rfl
  | succ n ih =>
    have hdouble : m * 2 ^ (n + 1) = 2 * m * 2 ^ n := by
      rw [Nat.pow_succ', ← Nat.mul_assoc, Nat.mul_comm m 2]
    rw [Nat.repeat, hdouble, ih]
    simp [ExtendedMantissa.shiftRightOne]

theorem targetExponent_full (h : Full m e) (n : Nat) :
    Format.binary64.targetExponent (Float.Model.totalExponent (m * 2 ^ n) (e - n)) = e := by
  have hmin := h.exponent.1
  show max (((m * 2 ^ n).log2 : Int) + 1 + (e - n) - 53) (-1074) = e
  rw [h.log2_mul]
  omega

/-- The shift only removes the zeros below a full mantissa, so that nothing is lost. -/
theorem shiftToTargetExponent_full (h : Full m e) (n : Nat) :
    shiftToTargetExponent Format.binary64 (m * 2 ^ n) (e - n) .exact = (⟨m, false, false⟩, e) := by
  have hamount : (e - (e - n)).toNat = n := by
    omega
  unfold shiftToTargetExponent shiftToExponent
  rw [targetExponent_full h]
  dsimp only
  rw [hamount, shiftRight_exact, Int.sub_add_cancel]

/-- A full significand is rounded to itself, also when zeros follow it. -/
theorem roundWithAccuracy_full (h : Full m e) (s : Sign) (n : Nat) :
    roundWithAccuracy Format.binary64 s (m * 2 ^ n) (e - n) .exact = .finite s m e h.pos := by
  have hagain : shiftToTargetExponent Format.binary64 m e .exact = (⟨m, false, false⟩, e) := by
    have hzero := shiftToTargetExponent_full h 0
    rwa [Nat.pow_zero, Nat.mul_one, Int.natCast_zero, Int.sub_zero] at hzero
  unfold roundWithAccuracy
  rw [shiftToTargetExponent_full h n]
  -- the number is taken apart only after the second shift is known to change nothing
  have hfinite {shifted : ExtendedMantissa × Int} (hshifted : shifted = (⟨m, false, false⟩, e)) :
      (if hzero : shifted.1.mantissa = 0 then UnpackedFloat.zero s
        else .finite s shifted.1.mantissa shifted.2 (Nat.pos_of_ne_zero hzero)) =
      .finite s m e h.pos := by
    subst hshifted
    exact dif_neg (Nat.ne_of_gt h.pos)
  exact hfinite hagain

/-! ### Packing -/

theorem ofBitVec_unpackSign (s : Sign) (exponent : BitVec 11) (mantissa : BitVec 52) :
    Sign.ofBitVec (@unpackSign Format.binary64
      (packComponents Format.binary64 s exponent mantissa)) = s := by
  have hsign : @unpackSign Format.binary64 (packComponents Format.binary64 s exponent mantissa) =
      (s.toBitVec ++ exponent ++ mantissa).extractLsb' 63 1 := rfl
  rw [hsign, BitVec.extractLsb'_append_eq_of_le (by decide),
    BitVec.extractLsb'_append_eq_of_le (by decide)]
  cases s <;> rfl

/-- The exponent of a full significand as it is stored; it is neither that of subnormal numbers nor
that of the infinities. -/
theorem Full.exists_exponent (h : Full m e) :
    ∃ k : Nat, e + (1023 : Nat) + (52 : Nat) = k ∧ 0 < k ∧ k < 2046 := by
  have := h.exponent
  exact ⟨(e + 1075).toNat, by omega, by omega, by omega⟩

/-- A full mantissa is packed as it is, with its exponent biased. -/
theorem pack_full (h : Full m e) (s : Sign) {k : Nat} (hk : e + (1023 : Nat) + (52 : Nat) = k)
    (hlt : k < 2046) :
    pack Format.binary64 (.finite s m e h.pos) =
      packComponents Format.binary64 s (BitVec.ofNat 11 k) (BitVec.ofNat 52 m) := by
  have hlog : m.log2 = 52 := by
    have := h.log2_mul 0
    rwa [Nat.pow_zero, Nat.mul_one, Nat.zero_add] at this
  have hbias : e + (Format.binary64.exponentBias : Nat) +
      (Format.binary64.mantissaBitsWithoutImplicit : Nat) = k := hk
  unfold pack
  dsimp only
  rw [hbias, Int.toNat_natCast, if_neg (show ¬ 2048 ≤ k + 1 by omega), hlog]
  rfl

/-- The fields of a packed full significand. -/
theorem finite_packComponents (h : Full m e) (s : Sign) {k : Nat}
    (hk : e + (1023 : Nat) + (52 : Nat) = k) (hpos : 0 < k) (hlt : k < 2046) :
    Finite (packComponents Format.binary64 s (BitVec.ofNat 11 k) (BitVec.ofNat 52 m)) s m e := by
  have hexponent : (BitVec.ofNat 11 k).toNat = k :=
    (BitVec.toNat_ofNat k 11).trans (Nat.mod_eq_of_lt (by omega))
  -- only the 52 low bits are stored: the highest one of a full mantissa is the hidden bit
  have hmantissa : hiddenBit + (BitVec.ofNat 52 m).toNat = m := by
    have hlower := h.lower
    have hupper := h.upper
    rw [BitVec.toNat_ofNat]
    unfold hiddenBit at *
    omega
  refine ⟨ofBitVec_unpackSign .., .inr ?_⟩
  rw [unpackExponent_packComponents, unpackMantissa_packComponents]
  have hexponent : (BitVec.ofNat Format.binary64.exponentBits k).toNat = k := hexponent
  rw [hexponent]
  exact ⟨hpos, hmantissa, by omega⟩

/-- Fields with a full significand are unpacked to it. -/
theorem unpack_of_finite (h : Full m e) (hb : Finite b s m e) :
    unpack Format.binary64 b = .finite s m e h.pos := by
  obtain ⟨hlower, hupper, -, hmax⟩ := h
  have hfraction : (@unpackMantissa Format.binary64 b).toNat < hiddenBit := BitVec.isLt _
  -- a subnormal has a mantissa below the hidden bit, so the parts are those of a normal number
  obtain ⟨hpos, hm, he⟩ : 0 < (@unpackExponent Format.binary64 b).toNat ∧
      hiddenBit + (@unpackMantissa Format.binary64 b).toNat = m ∧
      e = (@unpackExponent Format.binary64 b).toNat - 1075 := by
    refine hb.parts.resolve_left fun hsubnormal => ?_
    omega
  have hall : @unpackExponent Format.binary64 b ≠ -1#_ := fun heq => by
    have hmax : (@unpackExponent Format.binary64 b).toNat = 2047 := by
      rw [heq]
      rfl
    omega
  have hsome : @unpackExponent Format.binary64 b ≠ 0#_ := fun heq => by
    have hzero : (@unpackExponent Format.binary64 b).toNat = 0 := by
      rw [heq]
      rfl
    omega
  have hmantissa : (1#1 ++ @unpackMantissa Format.binary64 b).toNat = m := by
    rw [BitVec.toNat_append, ← Nat.shiftLeft_add_eq_or_of_lt (BitVec.isLt _)]
    exact hm
  unfold unpack
  dsimp only
  rw [if_neg hall, if_neg hsome]
  rw [UnpackedFloat.finite.injEq]
  exact ⟨hb.sign, hmantissa, he.symm⟩

/-- Packing keeps a full significand. -/
theorem unpack_pack_full (h : Full m e) (s : Sign) :
    unpack Format.binary64 (pack Format.binary64 (.finite s m e h.pos)) = .finite s m e h.pos := by
  obtain ⟨k, hk, hpos, hlt⟩ := h.exists_exponent
  rw [pack_full h s hk hlt]
  exact unpack_of_finite h (finite_packComponents h s hk hpos hlt)

/-! ### Whole numbers -/

/-- The double is `n`, or `-n`: its significand is `n`, shifted until it fills the bits. -/
def IsWhole (x : Float) (s : Sign) (n : Nat) : Prop :=
  ∃ (k : Nat) (h : Full (n * 2 ^ k) (-k)), x.toModel.unpack = .finite s (n * 2 ^ k) (-k) h.pos

/-- A whole number with no more bits than a significand fills one. -/
theorem exists_full (hpos : 0 < n) (hlt : n < 2 ^ 53) :
    n.log2 ≤ 52 ∧ Full (n * 2 ^ (52 - n.log2)) (-(52 - n.log2 : Nat)) := by
  have hlog : n.log2 ≤ 52 := Nat.le_of_lt_succ ((Nat.log2_lt (Nat.ne_of_gt hpos)).mpr hlt)
  have hlower := Nat.log2_self_le (Nat.ne_of_gt hpos)
  have hupper : n < 2 ^ (n.log2 + 1) := Nat.lt_log2_self
  have hlowest : 2 ^ n.log2 * 2 ^ (52 - n.log2) = hiddenBit := by
    rw [← Nat.pow_add, Nat.add_sub_cancel' hlog]
    rfl
  have hhighest : 2 ^ (n.log2 + 1) * 2 ^ (52 - n.log2) = 2 * hiddenBit := by
    rw [← hlowest, Nat.pow_succ', Nat.mul_assoc]
  refine ⟨hlog, ?_, ?_, by omega, by omega⟩
  · rw [← hlowest]
    exact Nat.mul_le_mul_right _ hlower
  · rw [← hhighest]
    exact Nat.mul_lt_mul_of_pos_right hupper (Nat.two_pow_pos _)

/-- A whole number becomes a double without loss. -/
theorem ofNat_full (hpos : 0 < n) (hlt : n < 2 ^ 53) :
    UnpackedFloat.ofNat Format.binary64 n =
      .finite .positive (n * 2 ^ (52 - n.log2)) (-(52 - n.log2 : Nat)) (exists_full hpos hlt).2.pos := by
  obtain ⟨hlog, hfull⟩ := exists_full hpos hlt
  -- reading a positive integer is rounding it, and rounding shifts it up to 53 bits
  have hround : UnpackedFloat.ofNat Format.binary64 n =
      UnpackedFloat.round Format.binary64 .positive n 0 := by
    have hcompare : compare (n : Int) 0 = .gt :=
      Int.compare_eq_gt.mpr (Int.natCast_pos.mpr hpos)
    unfold UnpackedFloat.ofNat UnpackedFloat.ofInt UnpackedFloat.normalize
    rw [hcompare]
    rfl
  have htarget : Format.binary64.targetExponent (Float.Model.totalExponent n 0) =
      -(52 - n.log2 : Nat) := by
    show max ((n.log2 : Int) + 1 + 0 - 53) (-1074) = _
    omega
  have hamount : (0 - -((52 - n.log2 : Nat) : Int)).toNat = 52 - n.log2 := by
    omega
  rw [hround]
  unfold UnpackedFloat.round decreaseExponent
  dsimp only
  rw [htarget, hamount, Nat.shiftLeft_eq, Int.zero_sub]
  have hrounded := roundWithAccuracy_full hfull .positive 0
  rwa [Nat.pow_zero, Nat.mul_one, Int.natCast_zero, Int.sub_zero] at hrounded

/-- The number one as it unpacks: its mantissa is the hidden bit. -/
theorem unpack_one :
    (Float.ofBits 0x3FF0000000000000).toModel.unpack =
      .finite .positive (1 * 2 ^ 52) (-52) (by decide) :=
  rfl

/-- The literal of a whole number is that number. -/
theorem isWhole_ofNatural (hpos : 0 < n) (hlt : n < 2 ^ 53) :
    IsWhole (ofNatural n) .positive n := by
  obtain ⟨hlog, hfull⟩ := exists_full hpos hlt
  have hnat : n.toUInt64.toNat = n := Nat.mod_eq_of_lt (by omega)
  have htoFloat : n.toUInt64.toFloat.toModel.unpack =
      .finite .positive (n * 2 ^ (52 - n.log2)) (-(52 - n.log2 : Nat)) hfull.pos := by
    show unpack Format.binary64 (pack Format.binary64
      (UnpackedFloat.ofNat Format.binary64 n.toUInt64.toNat)) = _
    rw [hnat, ofNat_full hpos hlt]
    exact unpack_pack_full hfull .positive
  refine ⟨52 - n.log2, hfull, ?_⟩
  unfold ofNatural Float.ofScientific
  rw [dif_pos ⟨hlt, by decide⟩]
  show unpack Format.binary64 (pack Format.binary64 (UnpackedFloat.mul Format.binary64
    n.toUInt64.toFloat.toModel.unpack (Float.ofBits 0x3FF0000000000000).toModel.unpack)) = _
  rw [htoFloat, unpack_one]
  have hproduct := roundWithAccuracy_full hfull .positive 52
  have hfactors : n * 2 ^ (52 - n.log2) * (1 * 2 ^ 52) = n * 2 ^ (52 - n.log2) * 2 ^ 52 := by
    rw [Nat.one_mul]
  show unpack Format.binary64 (pack Format.binary64 (roundWithAccuracy Format.binary64 .positive
    (n * 2 ^ (52 - n.log2) * (1 * 2 ^ 52)) (-(52 - n.log2 : Nat) + -52) .exact)) = _
  rw [hfactors]
  have hexponent : -((52 - n.log2 : Nat) : Int) + -52 = -(52 - n.log2 : Nat) - (52 : Nat) := rfl
  rw [hexponent, hproduct]
  exact unpack_pack_full hfull .positive

namespace IsWhole

theorem neg (h : IsWhole x s n) : IsWhole (-x) (-s) n := by
  obtain ⟨k, hfull, hx⟩ := h
  refine ⟨k, hfull, ?_⟩
  show unpack Format.binary64 (pack Format.binary64 x.toModel.unpack.neg) = _
  rw [hx]
  exact unpack_pack_full hfull (-s)

theorem isFinite (h : IsWhole x s n) : x.isFinite = true := by
  obtain ⟨k, hfull, hx⟩ := h
  show x.toModel.unpack.isFinite = true
  rw [hx]
  rfl

theorem nonneg (h : IsWhole x .positive n) : 0 ≤ x := by
  obtain ⟨k, hfull, hx⟩ := h
  have hle : UnpackedFloat.le (.zero .positive) x.toModel.unpack = true := by
    rw [hx]
    rfl
  exact decide_eq_true hle

end IsWhole

/-- The numbers that a double is read off are the fields of its bits. -/
theorem toBits_fields (x : Float) :
    (x.toBits >>> 63).toNat = (@unpackSign Format.binary64 x.toModel.toBits.toBitVec).toNat ∧
      x.toBits.toNat / hiddenBit % 0x800 =
        (@unpackExponent Format.binary64 x.toModel.toBits.toBitVec).toNat ∧
      x.toBits.toNat % hiddenBit =
        (@unpackMantissa Format.binary64 x.toModel.toBits.toBitVec).toNat := by
  have hbits : x.toBits.toNat = _ := toNat_bits x.toModel.toBits.toBitVec
  -- the three fields are digits of one number, so their bounds are all `omega` needs
  have hsign : (@unpackSign Format.binary64 x.toModel.toBits.toBitVec).toNat < 2 := BitVec.isLt _
  have hexponent : (@unpackExponent Format.binary64 x.toModel.toBits.toBitVec).toNat < 2048 :=
    BitVec.isLt _
  have hfraction : (@unpackMantissa Format.binary64 x.toModel.toBits.toBitVec).toNat < hiddenBit :=
    BitVec.isLt _
  have hshift : (x.toBits >>> 63).toNat = x.toBits.toNat / 2 ^ 63 :=
    (UInt64.toNat_shiftRight ..).trans (Nat.shiftRight_eq_div_pow ..)
  unfold hiddenBit at *
  omega

theorem isNegative_eq (x : Float) :
    isNegative x =
      (Sign.ofBitVec (@unpackSign Format.binary64 x.toModel.toBits.toBitVec) == .negative) := by
  have hshift := (toBits_fields x).1
  unfold isNegative
  rcases (@unpackSign Format.binary64 x.toModel.toBits.toBitVec).eq_zero_or_eq_one with hs | hs
  · rw [hs] at hshift ⊢
    have hzero : x.toBits >>> 63 = 0 := UInt64.toNat_inj.mp hshift
    rw [hzero]
    rfl
  · rw [hs] at hshift ⊢
    have hone : x.toBits >>> 63 = 1 := UInt64.toNat_inj.mp hshift
    rw [hone]
    rfl

/-- The parts of a double are the parts of its bits. -/
theorem parts_of_finite (h : Finite x.toModel.toBits.toBitVec s m e) :
    (magnitude x).m = m ∧ (magnitude x).q = e ∧ isNegative x = (s == .negative) := by
  obtain ⟨-, hexponent, hfraction⟩ := toBits_fields x
  rw [isNegative_eq, h.sign]
  unfold magnitude Magnitude.ofBits
  dsimp only
  rw [hexponent, hfraction]
  rcases h.parts with ⟨hzero, hm, he⟩ | ⟨hpos, hm, he⟩
  · rw [if_pos hzero]
    exact ⟨hm, he.symm, rfl⟩
  · rw [if_neg (Nat.ne_of_gt hpos)]
    exact ⟨hm, he.symm, rfl⟩

/-- The integer nearest to a whole number. -/
theorem IsWhole.nearestInt? (h : IsWhole x s n) : nearestInt? x = some (s.apply n) := by
  have hfinite := h.isFinite
  obtain ⟨k, hfull, hx⟩ := h
  obtain ⟨hm, hq, hsign⟩ := parts_of_finite (finite_of_unpack hx)
  -- the denominator divides the numerator, so that half-even rounding has nothing to decide
  have hround : (magnitude x).round = n := by
    have hnum : (magnitude x).num = n * 2 ^ k := by
      have hleft : (-(k : Int)).toNat = 0 := by omega
      rw [Magnitude.num, hm, hq, hleft, Nat.shiftLeft_zero]
    have hden : (magnitude x).den = 2 ^ k := by
      rw [Magnitude.den, hq, Int.neg_neg, Int.toNat_natCast, Nat.one_shiftLeft]
    rw [Magnitude.round, hnum, hden, halfEven]
    simp [Nat.mul_div_cancel _ (Nat.two_pow_pos k), Nat.two_pow_pos k]
  rw [Binary64.nearestInt?, if_pos hfinite, hround, hsign]
  cases s <;> rfl

/-- The literal of `n` is a number that is not negative and is nearest to the integer `k`, as its
negation is to `-k`. -/
structure ReadAs (n k : Nat) : Prop where
  nonneg : 0 ≤ ofNatural n
  nearestInt?_pos : nearestInt? (ofNatural n) = some (k : Int)
  nearestInt?_neg : nearestInt? (-ofNatural n) = some (-(k : Int))

theorem readAs_small (h : n < 2 ^ 53) : ReadAs n n := by
  by_cases hzero : n = 0
  · subst hzero
    exact ⟨by decide, by decide, by decide⟩
  · have hwhole := isWhole_ofNatural (Nat.pos_of_ne_zero hzero) h
    exact ⟨hwhole.nonneg, hwhole.nearestInt?, hwhole.neg.nearestInt?⟩

end Binary64
end PixelCalc
