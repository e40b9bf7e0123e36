import Mathlib.Algebra.Group.Nat.Defs
import PixelCalc.Proofs.Binary64.Finiteness
import PixelCalc.Proofs.Binary64.Ordering
import PixelCalc.Proofs.Binary64.Whole

/-!
# Rounding to the nearest double

Rounding shifts a significand to the right until 53 bits of it are left, and keeps of the rest how it
compares with a half. The rank of the result is a function of the number that is rounded, and a larger
number has no smaller rank.

- `halfEven_mono`: rounding of fractions.
- `Records`: what is left of a significand that is shifted, `Records.shiftRight` along the shift.
- `roundedRank`: the rank of a rounded number; `roundWithAccuracy_exact` says that rounding finds it,
  and `roundedRank_mono` that it grows with the number.
- `sign_pack`, `Rounded.rankOfBits_pack`: packing keeps the sign, and the rank if it is not too large.
-/

namespace PixelCalc
namespace Binary64

open Float.Model (UnpackedFloat Format)
open Float.Model.UnpackedFloat

variable {num num' den m n k : Nat} {e : Int} {s : Sign} {u : UnpackedFloat}

/-! ### Fractions -/

/-- The rounded quotient is the quotient or the number after it. -/
theorem halfEven_bounds (num den : Nat) :
    num / den ≤ halfEven num den ∧ halfEven num den ≤ num / den + 1 := by
  unfold halfEven
  dsimp only
  split
  · omega
  · split <;> omega

/-- Rounding to the nearest keeps the order. -/
theorem halfEven_mono (h : num ≤ num') : halfEven num den ≤ halfEven num' den := by
  have hsplit : den * (num / den) + num % den = num := Nat.div_add_mod num den
  have hsplit' : den * (num' / den) + num' % den = num' := Nat.div_add_mod num' den
  have hquotient : num / den ≤ num' / den := Nat.div_le_div_right h
  obtain hlt | heq := Nat.lt_or_eq_of_le hquotient
  · -- one more below leaves room for rounding up
    have hupper := (halfEven_bounds num den).2
    have hlower := (halfEven_bounds num' den).1
    omega
  · have hremainder : num % den ≤ num' % den := by
      rw [heq] at hsplit
      omega
    unfold halfEven
    dsimp only
    rw [heq]
    repeat' split
    all_goals omega

/-- A common factor of the fraction does not matter. -/
theorem halfEven_mul_right (hc : 0 < n) : halfEven (num * n) (den * n) = halfEven num den := by
  have hquotient : num * n / (den * n) = num / den := Nat.mul_div_mul_right _ _ hc
  have hremainder : num * n % (den * n) = num % den * n := Nat.mul_mod_mul_right ..
  have htwice : 2 * (num % den * n) = 2 * (num % den) * n := (Nat.mul_assoc ..).symm
  unfold halfEven
  dsimp only
  rw [hquotient, hremainder, htwice]
  simp only [Nat.mul_lt_mul_right hc]

/-- A whole number is rounded to itself. -/
theorem halfEven_mul_self (hden : 0 < den) (q : Nat) : halfEven (q * den) den = q := by
  unfold halfEven
  dsimp only
  rw [Nat.mul_mod_left, Nat.mul_div_cancel _ hden, if_pos (by omega)]

/-! ### Shifts -/

/-- The significand is the quotient of `num` and `den`, and the two bits behind it say how the
remainder compares with half of `den`. -/
structure Records (em : ExtendedMantissa) (num den : Nat) : Prop where
  mantissa : em.mantissa = num / den
  roundBit : em.roundBit = true ↔ den ≤ 2 * (num % den)
  stickyBit : em.stickyBit = true ↔ 2 * (num % den) ≠ 0 ∧ 2 * (num % den) ≠ den

variable {em : ExtendedMantissa}

theorem records_exact (num : Nat) : Records ⟨num, false, false⟩ num 1 := by
  refine ⟨(Nat.div_one num).symm, ?_, ?_⟩ <;> simp [Nat.mod_one]

/-- The bit that a shift drops is the first one behind the significand. -/
theorem Records.shiftRightOne (h : Records em num den) (hden : 0 < den) :
    Records em.shiftRightOne num (den * 2) := by
  -- the bit that is shifted out, and what was shifted out before, make up the remainder
  have hremainder : num % (den * 2) = num % den + den * (num / den % 2) := Nat.mod_mul
  have hlt : num % den < den := Nat.mod_lt _ hden
  have hround := h.roundBit
  have hsticky := h.stickyBit
  refine ⟨?_, ?_, ?_⟩
  · show em.mantissa / 2 = num / (den * 2)
    rw [h.mantissa, Nat.div_div_eq_div_mul]
  · show (em.mantissa % 2 != 0) = true ↔ _
    rw [bne_iff_ne, h.mantissa, hremainder]
    obtain hbit | hbit := Nat.mod_two_eq_zero_or_one (num / den) <;> rw [hbit] <;> omega
  · show (em.roundBit || em.stickyBit) = true ↔ _
    rw [Bool.or_eq_true, hround, hsticky, hremainder]
    obtain hbit | hbit := Nat.mod_two_eq_zero_or_one (num / den) <;> rw [hbit] <;> omega

/-- So does a shift by any number of places, one after another. -/
theorem Records.shiftRight (h : Records em num den) (hden : 0 < den) (n : Nat) :
    Records (em >>> n) num (den * 2 ^ n) := by
  show Records (n.repeat ExtendedMantissa.shiftRightOne em) num (den * 2 ^ n)
  induction n with
  | zero =>
    rw [Nat.pow_zero, Nat.mul_one]
    exact h
  | succ n ih =>
    rw [Nat.pow_succ, ← Nat.mul_assoc]
    exact ih.shiftRightOne (Nat.mul_pos hden (Nat.two_pow_pos n))

/-- The two bits are what rounding needs to know. -/
theorem Records.roundedMantissa_eq (h : Records em num den) :
    em.roundedMantissa = halfEven num den := by
  obtain ⟨mantissa, roundBit, stickyBit⟩ := em
  obtain ⟨hmantissa, hround, hsticky⟩ := h
  simp only at hmantissa hround hsticky
  subst hmantissa
  unfold halfEven
  dsimp only
  cases roundBit <;> cases stickyBit <;>
    simp only [Bool.false_eq_true, false_iff, true_iff] at hround hsticky
  · show num / den = _
    rw [if_pos (by omega)]
  · show num / den = _
    rw [if_pos (by omega)]
  · show num / den + num / den % 2 = _
    rw [if_neg (by omega), if_neg (by omega)]
  · show num / den + 1 = _
    rw [if_neg (by omega), if_pos (by omega)]

/-! ### Rounding -/

/-- The place of the last bit that is kept of `n` units of `2^-2148`: 53 bits are kept, but none below
the least exponent. -/
def lastPlace (n : Nat) : Nat :=
  max (n.log2 - 52) 1074

/-- The rank of the double nearest to `n` units of `2^-2148`. -/
def roundedRank (n : Nat) : Nat :=
  (lastPlace n - 1074) * hiddenBit + halfEven n (2 ^ lastPlace n)

theorem log2_mul_two_pow (hm : m ≠ 0) (n : Nat) : (m * 2 ^ n).log2 = m.log2 + n := by
  induction n with
  | zero => rw [Nat.pow_zero, Nat.mul_one, Nat.add_zero]
  | succ n ih =>
    have hdouble : m * 2 ^ (n + 1) = 2 * (m * 2 ^ n) := by
      rw [Nat.pow_succ', Nat.mul_left_comm]
    rw [hdouble, Nat.log2_two_mul (Nat.mul_ne_zero hm (Nat.ne_of_gt (Nat.two_pow_pos n))), ih]
    rfl

/-- A greater number has at least as many bits. -/
theorem log2_mono (h : n ≤ k) : n.log2 ≤ k.log2 := by
  by_cases hn : n = 0
  · rw [hn, Nat.log2_zero]
    exact Nat.zero_le _
  · have hk : k ≠ 0 := by omega
    exact (Nat.le_log2 hk).mpr (Nat.le_trans (Nat.log2_self_le hn) h)

/-- No more than 53 bits are kept. -/
theorem halfEven_lastPlace_le (n : Nat) : halfEven n (2 ^ lastPlace n) ≤ 2 * hiddenBit := by
  have hupper : n ≤ 2 * hiddenBit * 2 ^ lastPlace n :=
    calc n ≤ 2 ^ (n.log2 + 1) := Nat.le_of_lt Nat.lt_log2_self
      _ ≤ 2 ^ (53 + lastPlace n) := Nat.pow_le_pow_right Nat.two_pos (by unfold lastPlace; omega)
      _ = 2 * hiddenBit * 2 ^ lastPlace n := by
        rw [Nat.pow_add]
        rfl
  calc halfEven n (2 ^ lastPlace n)
      ≤ halfEven (2 * hiddenBit * 2 ^ lastPlace n) (2 ^ lastPlace n) := halfEven_mono hupper
    _ = 2 * hiddenBit := halfEven_mul_self (Nat.two_pow_pos _) _

/-- Above the least exponent all 53 bits are in use. -/
theorem le_halfEven_lastPlace (h : 1074 < lastPlace n) :
    hiddenBit ≤ halfEven n (2 ^ lastPlace n) := by
  have hlog : 52 + lastPlace n = n.log2 := by
    unfold lastPlace at *
    omega
  have hn : n ≠ 0 := by
    rintro rfl
    rw [Nat.log2_zero] at hlog
    omega
  -- with its leading bit alone the number would be the least of its binade
  have hlower : hiddenBit * 2 ^ lastPlace n ≤ n :=
    calc hiddenBit * 2 ^ lastPlace n = 2 ^ (52 + lastPlace n) := by
          rw [Nat.pow_add]
          rfl
      _ = 2 ^ n.log2 := by rw [hlog]
      _ ≤ n := Nat.log2_self_le hn
  calc hiddenBit = halfEven (hiddenBit * 2 ^ lastPlace n) (2 ^ lastPlace n) :=
        (halfEven_mul_self (Nat.two_pow_pos _) _).symm
    _ ≤ halfEven n (2 ^ lastPlace n) := halfEven_mono hlower

/-- A larger number is not rounded to less: where it keeps a later last place, it has the leading bit
that the smaller one can at most be rounded up to. -/
theorem roundedRank_mono (h : n ≤ k) : roundedRank n ≤ roundedRank k := by
  have hplace : lastPlace n ≤ lastPlace k := by
    have := log2_mono h
    unfold lastPlace
    omega
  unfold roundedRank
  -- in different binades the ranks are apart; in one binade the rounding keeps the order
  obtain hlt | heq := Nat.lt_or_eq_of_le hplace
  · have hleast : 1074 ≤ lastPlace n := Nat.le_max_right ..
    have hupper := halfEven_lastPlace_le n
    have hlower := le_halfEven_lastPlace (n := k) (by omega)
    unfold hiddenBit at *
    omega
  · rw [heq]
    exact Nat.add_le_add_left (halfEven_mono h) _

/-- The sign and the rank of a rounded number, whose exponent may be too large for a double. -/
inductive Rounded : UnpackedFloat → Sign → Nat → Prop
  | zero (s : Sign) : Rounded (.zero s) s 0
  | finite {s : Sign} {m : Nat} {e : Int} {k : Nat} {hm : 0 < m} (h : Canonical m e k) :
      Rounded (.finite s m e hm) s k

/-- The first shift leaves the bits that are kept. -/
theorem shiftToTargetExponent_exact (hm : m ≠ 0) (hle : n ≤ lastPlace (m * 2 ^ n)) :
    (shiftToTargetExponent Format.binary64 m ((n : Int) - 2148) .exact).1.roundedMantissa =
        halfEven (m * 2 ^ n) (2 ^ lastPlace (m * 2 ^ n)) ∧
      (shiftToTargetExponent Format.binary64 m ((n : Int) - 2148) .exact).2 =
        (lastPlace (m * 2 ^ n) : Int) - 2148 := by
  have hlog := log2_mul_two_pow hm n
  have htarget : Format.binary64.targetExponent (Float.Model.totalExponent m ((n : Int) - 2148)) =
      (lastPlace (m * 2 ^ n) : Int) - 2148 := by
    show max ((m.log2 : Int) + 1 + ((n : Int) - 2148) - 53) (-1074) = _
    unfold lastPlace
    rw [hlog]
    omega
  have hamount : ((lastPlace (m * 2 ^ n) : Int) - 2148 - ((n : Int) - 2148)).toNat =
      lastPlace (m * 2 ^ n) - n := by
    omega
  unfold shiftToTargetExponent shiftToExponent
  rw [htarget]
  dsimp only
  rw [hamount]
  refine ⟨?_, by omega⟩
  -- nothing was shifted out before, so both bits are those of this shift
  have hrecords := (records_exact m).shiftRight Nat.one_pos (lastPlace (m * 2 ^ n) - n)
  have hpow : 2 ^ lastPlace (m * 2 ^ n) = 2 ^ (lastPlace (m * 2 ^ n) - n) * 2 ^ n := by
    rw [← Nat.pow_add, Nat.sub_add_cancel hle]
  rw [Nat.one_mul] at hrecords
  rw [hpow, halfEven_mul_right (Nat.two_pow_pos n)]
  exact hrecords.roundedMantissa_eq

/-- A significand of 53 bits is not shifted again. -/
theorem shiftToTargetExponent_again (hm : m < 2 * hiddenBit) (he : -1074 ≤ e) :
    shiftToTargetExponent Format.binary64 m e .exact = (⟨m, false, false⟩, e) := by
  have hlog : m.log2 ≤ 52 := by
    by_cases hzero : m = 0
    · rw [hzero, Nat.log2_zero]
      exact Nat.zero_le _
    · exact Nat.le_of_lt_succ ((Nat.log2_lt hzero).mpr hm)
  -- a rounded mantissa is short enough, so the second shift does nothing
  have hamount : (max ((m.log2 : Int) + 1 + e - 53) (-1074) - e).toNat = 0 := by
    omega
  have htarget : (Format.binary64.targetExponent (Float.Model.totalExponent m e) - e).toNat = 0 :=
    hamount
  unfold shiftToTargetExponent shiftToExponent
  dsimp only
  rw [htarget, Int.natCast_zero, Int.add_zero]
  rfl

/-- A significand that was rounded up to 54 bits is shifted by one. -/
theorem shiftToTargetExponent_carry (he : -1074 ≤ e) :
    shiftToTargetExponent Format.binary64 (2 * hiddenBit) e .exact =
      (⟨hiddenBit, false, false⟩, e + 1) := by
  have hlog : (2 * hiddenBit).log2 = 53 := by decide
  have hamount : (max (((2 * hiddenBit).log2 : Int) + 1 + e - 53) (-1074) - e).toNat = 1 := by
    omega
  have htarget : (Format.binary64.targetExponent
      (Float.Model.totalExponent (2 * hiddenBit) e) - e).toNat = 1 :=
    hamount
  unfold shiftToTargetExponent shiftToExponent
  dsimp only
  rw [htarget]
  rfl

/-- A number of `n` bits of units of `2^-2148` is rounded to the double with its rounded rank. -/
theorem roundWithAccuracy_exact (s : Sign) (hm : m ≠ 0) (hle : n ≤ lastPlace (m * 2 ^ n)) :
    Rounded (roundWithAccuracy Format.binary64 s m ((n : Int) - 2148) .exact) s
      (roundedRank (m * 2 ^ n)) := by
  obtain ⟨hmantissa, hexponent⟩ := shiftToTargetExponent_exact hm hle
  have hleast : 1074 ≤ lastPlace (m * 2 ^ n) := Nat.le_max_right ..
  have hupper := halfEven_lastPlace_le (m * 2 ^ n)
  have hlower := le_halfEven_lastPlace (n := m * 2 ^ n)
  unfold roundWithAccuracy roundedRank
  dsimp only
  rw [hmantissa, hexponent]
  generalize halfEven (m * 2 ^ n) (2 ^ lastPlace (m * 2 ^ n)) = r at *
  generalize lastPlace (m * 2 ^ n) = p at *
  obtain hlt | rfl := Nat.lt_or_eq_of_le hupper
  · rw [shiftToTargetExponent_again hlt (by omega)]
    dsimp only
    by_cases hzero : r = 0
    · -- nothing is left of the number, which has the least exponent then
      subst hzero
      have hrank : (p - 1074) * hiddenBit + 0 = 0 := by
        unfold hiddenBit at *
        omega
      rw [dif_pos rfl, hrank]
      exact .zero s
    · rw [dif_neg hzero]
      refine .finite ⟨Nat.pos_of_ne_zero hzero, hlt, ?_, ?_, ?_⟩
      · omega
      · omega
      · unfold hiddenBit
        omega
  · rw [shiftToTargetExponent_carry (by omega)]
    dsimp only
    rw [dif_neg (by decide)]
    refine .finite ⟨by decide, by decide, .inl (Nat.le_refl _), ?_, ?_⟩
    · omega
    · unfold hiddenBit
      omega

/-! ### Packing -/

/-- The sign of an unpacked double; NaN has none that is kept. -/
def unpackedSign : UnpackedFloat → Sign
  | .infinity s => s
  | .zero s => s
  | .finite s _ _ _ => s
  | .notANumber => .positive

theorem Ranked.unpackedSign_eq (h : Ranked u s k) : unpackedSign u = s := by
  cases h <;> rfl

theorem sign_pack (u : UnpackedFloat) :
    Sign.ofBitVec (@unpackSign Format.binary64 (pack Format.binary64 u)) = unpackedSign u := by
  cases u with
  | finite s m e hm =>
    show Sign.ofBitVec (@unpackSign Format.binary64 (pack Format.binary64 (.finite s m e hm))) = s
    unfold pack
    dsimp only
    split
    · exact ofBitVec_unpackSign ..
    · split <;> exact ofBitVec_unpackSign ..
  | _ => exact ofBitVec_unpackSign ..

theorem rankOfBits_packComponents (s : Sign) (exponent : BitVec 11) (mantissa : BitVec 52) :
    rankOfBits (packComponents Format.binary64 s exponent mantissa) =
      exponent.toNat * hiddenBit + mantissa.toNat := by
  rw [rankOfBits, unpackExponent_packComponents, unpackMantissa_packComponents]

/-- The ranks from that of the infinities on are those of the exponents that are too large. -/
theorem Canonical.infinityRank_le_iff {m k : Nat} {e : Int} (h : Canonical m e k) :
    infinityRank ≤ k ↔ 972 ≤ e := by
  obtain ⟨hpos, hupper, hlower, hexponent, hrank⟩ := h
  unfold infinityRank hiddenBit at *
  omega

/-- All bits of a normal number are in use. -/
theorem Canonical.log2_eq_iff {m k : Nat} {e : Int} (h : Canonical m e k) :
    m.log2 + 1 = 53 ↔ hiddenBit ≤ m := by
  have hlower : 52 ≤ m.log2 ↔ hiddenBit ≤ m := Nat.le_log2 (Nat.ne_of_gt h.pos)
  have hupper : m.log2 < 53 := (Nat.log2_lt (Nat.ne_of_gt h.pos)).mpr h.upper
  omega

/-- Packing keeps the rank, or gives an infinity where it is too large. -/
theorem Rounded.rankOfBits_pack (h : Rounded u s k) :
    rankOfBits (pack Format.binary64 u) = min k infinityRank := by
  cases h with
  | zero => exact rankOfBits_packComponents s 0#11 0#52
  | @finite s m e k hm h =>
    unfold pack
    dsimp only
    rw [exponentBias_eq]
    by_cases hlarge : 972 ≤ e
    · rw [if_pos (show 2048 ≤ (e + (1023 : Nat) + (52 : Nat)).toNat + 1 by omega),
        Nat.min_eq_right (h.infinityRank_le_iff.mpr hlarge)]
      exact rankOfBits_packComponents s (-1#11) 0#52
    · rw [if_neg (show ¬ 2048 ≤ (e + (1023 : Nat) + (52 : Nat)).toNat + 1 by omega),
        Nat.min_eq_left (Nat.le_of_not_le (mt h.infinityRank_le_iff.mp hlarge))]
      obtain ⟨hpos, hupper, hlower, hexponent, hrank⟩ := id h
      -- a normal mantissa loses its leading bit, a subnormal one has the empty exponent
      by_cases hnormal : hiddenBit ≤ m
      · have hbits : m.log2 + 1 = Format.binary64.mantissaBits := h.log2_eq_iff.mpr hnormal
        rw [if_pos hbits, rankOfBits_packComponents, BitVec.toNat_ofNat, BitVec.toNat_ofNat]
        unfold hiddenBit at *
        omega
      · have hbits : ¬ m.log2 + 1 = Format.binary64.mantissaBits := mt h.log2_eq_iff.mp hnormal
        have hsubnormal := rankOfBits_packComponents s 0#11 (BitVec.ofNat 52 m)
        rw [BitVec.toNat_ofNat m 52, BitVec.toNat_ofNat 0 11] at hsubnormal
        rw [if_neg hbits]
        refine hsubnormal.trans ?_
        unfold hiddenBit at *
        omega

end Binary64
end PixelCalc
