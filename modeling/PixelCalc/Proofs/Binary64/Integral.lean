import Mathlib.Algebra.Group.Nat.Defs
import PixelCalc.Proofs.Binary64.Nearest

/-!
# The integer nearest to a double is a double

A double with a fraction is small, and the integer next to it has no more bits than a significand. A
double without one is the integer itself. So the literal of the integer nearest to a double, if it has
64 bits, is a double without loss.

- `Exact`: the natural numbers that doubles are; `exact_of_nearestInt?` says that nearest integers are
  among them.
- `unpack_ofNatural`: the literal of a significand with zeros behind it.
- `Exact.readAs`: an exact number is read as itself.
-/

namespace PixelCalc
namespace Binary64

open Float.Model (UnpackedFloat Format)
open Float.Model.UnpackedFloat

variable {m n k : Nat} {i : Int} {s : Sign} {x : Float} {a : Magnitude} {bits : UInt64}

/-- The number has no more bits than a significand, but for zeros behind them. -/
inductive Exact : Nat → Prop
  | small {n : Nat} (h : n < 2 ^ 53) : Exact n
  | shifted {m k : Nat} (h : Full m k) : Exact (m * 2 ^ k)

/-! ### Nearest integers -/

theorem Magnitude.round_of_nonneg (h : a.q = (k : Int)) : a.round = a.m * 2 ^ k := by
  have hnum : a.num = a.m * 2 ^ k := by
    rw [num, h, Int.toNat_natCast, Nat.shiftLeft_eq]
  have hden : a.den = 1 := by
    have hnone : (-(k : Int)).toNat = 0 := by omega
    rw [den, h, hnone, Nat.shiftLeft_zero]
  have hself := halfEven_mul_self Nat.one_pos (a.m * 2 ^ k)
  rwa [Nat.mul_one, ← hden, ← hnum, ← round, hnum] at hself

/-- A fraction has at least one bit, and the rest is less than a significand. -/
theorem Magnitude.round_lt (hm : a.m < 2 * hiddenBit) (h : a.q < 0) : a.round < 2 ^ 53 := by
  obtain ⟨k, hk, hpos⟩ : ∃ k : Nat, -a.q = k ∧ 0 < k := ⟨(-a.q).toNat, by omega, by omega⟩
  have hnum : a.num = a.m := by
    have hnone : a.q.toNat = 0 := by omega
    rw [num, hnone, Nat.shiftLeft_zero]
  have hden : a.den = 2 ^ k := by
    rw [den, hk, Int.toNat_natCast, Nat.one_shiftLeft]
  have hupper := (halfEven_bounds a.m (2 ^ k)).2
  -- a denominator of two at least halves the mantissa, and rounding up adds one at most
  have hhalf : a.m / 2 ^ k ≤ a.m / 2 :=
    Nat.div_le_div_left (Nat.le_self_pow (Nat.ne_of_gt hpos) 2) (by decide)
  rw [round, hnum, hden]
  unfold hiddenBit at hm
  omega

/-- Without a fraction all bits of the significand are in use. -/
theorem Magnitude.hiddenBit_le (h : 0 ≤ (Magnitude.ofBits bits).q) :
    hiddenBit ≤ (Magnitude.ofBits bits).m := by
  unfold ofBits at *
  dsimp only at *
  split at h
  · have hnegative : ¬ (0 : Int) ≤ -1074 := by decide
    exact absurd h hnegative
  · rename_i hnormal
    rw [if_neg hnormal]
    exact Nat.le_add_right _ _

/-- Without its sign the nearest integer is the rounded magnitude. -/
theorem natAbs_nearestInt? (h : nearestInt? x = some i) : i.natAbs = (magnitude x).round := by
  unfold nearestInt? at h
  split at h
  · rw [← Option.some.inj h]
    split <;> simp
  · cases h

/-- The integer nearest to a double is exact, if it has 64 bits. -/
theorem exact_of_nearestInt? (h : nearestInt? x = some i) (hi : i.natAbs < 2 ^ 64) :
    Exact i.natAbs := by
  have hround := natAbs_nearestInt? h
  have hupper : (magnitude x).m < 2 * hiddenBit := Magnitude.ofBits_m_lt x.toBits
  obtain hfraction | hwhole := Int.lt_or_le (magnitude x).q 0
  · rw [hround]
    exact .small (Magnitude.round_lt hupper hfraction)
  · obtain ⟨k, hk⟩ := Int.eq_ofNat_of_zero_le hwhole
    have hlower : hiddenBit ≤ (magnitude x).m := Magnitude.hiddenBit_le hwhole
    have hvalue : i.natAbs = (magnitude x).m * 2 ^ k :=
      hround.trans (Magnitude.round_of_nonneg hk)
    have hpow : 2 ^ k < 2 ^ 64 := by
      refine Nat.lt_of_le_of_lt ?_ hi
      rw [hvalue]
      exact Nat.le_mul_of_pos_left _ (Nat.lt_of_lt_of_le (by decide) hlower)
    have hlt : k < 64 := (Nat.pow_lt_pow_iff_right (by decide)).mp hpow
    rw [hvalue]
    exact .shifted ⟨hlower, hupper, by omega, by omega⟩

/-! ### Literals -/

/-- A literal is filled up with zeros, which are rounded away again. -/
theorem ofScientific_eq (hn : n ≠ 0) :
    UnpackedFloat.ofScientific Format.binary64 n 0 =
      roundWithAccuracy Format.binary64 .positive (n * 2 ^ 53) (-53) .exact := by
  have hbits : (2 ^ Format.binary64.exponentBits : Int) = 2048 := rfl
  unfold UnpackedFloat.ofScientific
  rw [hbits, dif_neg hn, if_neg (by omega), if_neg (by omega), if_pos (by omega)]
  show roundWithAccuracy Format.binary64 .positive (n <<< 53 * 1) (-53 + 0) .exact = _
  rw [Nat.mul_one, Nat.shiftLeft_eq]
  rfl

/-- A literal with more bits than a significand is rounded, and zeros behind a significand are not
lost. -/
theorem unpack_ofNatural (h : Full m k) (hlarge : 2 ^ 53 ≤ m * 2 ^ k) :
    (ofNatural (m * 2 ^ k)).toModel.unpack = .finite .positive m k h.pos := by
  have hshift : m * 2 ^ k * 2 ^ 53 = m * 2 ^ (k + 53) := by
    rw [Nat.mul_assoc, ← Nat.pow_add]
  have hexponent : (-53 : Int) = k - (k + 53 : Nat) := by omega
  unfold ofNatural Float.ofScientific
  rw [dif_neg (by omega)]
  show unpack Format.binary64 (pack Format.binary64
    (UnpackedFloat.ofScientific Format.binary64 (m * 2 ^ k) 0)) = _
  rw [ofScientific_eq (by omega), hshift, hexponent, roundWithAccuracy_full h]
  exact unpack_pack_full h .positive

/-- A double without a fraction is its own nearest integer. -/
theorem nearestInt?_of_unpack {hm : 0 < m} (h : x.toModel.unpack = .finite s m k hm) :
    nearestInt? x = some (s.apply (m * 2 ^ k : Nat)) := by
  have hfinite : x.isFinite = true := by
    show x.toModel.unpack.isFinite = true
    rw [h]
    rfl
  obtain ⟨hsignificand, hexponent, hsign⟩ := parts_of_finite (finite_of_unpack h)
  rw [nearestInt?, if_pos hfinite, Magnitude.round_of_nonneg hexponent, hsignificand, hsign]
  cases s <;> rfl

/-- An exact number is not changed by reading it. -/
theorem Exact.readAs (h : Exact n) : ReadAs n n := by
  cases h with
  | small h => exact readAs_small h
  | @shifted m k h =>
    obtain hsmall | hlarge := Nat.lt_or_ge (m * 2 ^ k) (2 ^ 53)
    · exact readAs_small hsmall
    · have hpos := unpack_ofNatural h hlarge
      have hneg : (-ofNatural (m * 2 ^ k)).toModel.unpack = .finite .negative m k h.pos := by
        show unpack Format.binary64
          (pack Format.binary64 (ofNatural (m * 2 ^ k)).toModel.unpack.neg) = _
        rw [hpos]
        exact unpack_pack_full h .negative
      have hnonneg :
          UnpackedFloat.le (.zero .positive) (ofNatural (m * 2 ^ k)).toModel.unpack = true := by
        rw [hpos]
        rfl
      exact ⟨decide_eq_true hnonneg, nearestInt?_of_unpack hpos, nearestInt?_of_unpack hneg⟩

end Binary64
end PixelCalc
