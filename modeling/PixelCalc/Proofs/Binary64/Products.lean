import Mathlib.Algebra.Group.Nat.Defs
import PixelCalc.Proofs.Binary64.Nearest

/-!
# Products keep the order

A product is rounded to the nearest double, and what is larger is not rounded to less. So two numbers
multiplied by a third one keep their order, or have it reversed, if the third one is negative.

- `rounded_mul`: the product of two finite numbers.
- `Ranked.mul_eq_zero`, `Ranked.mul_eq`, `Ranked.mul_le`: magnitudes of products.
- `sign_mul`, `sign_div`: signs of products and quotients; `Opposite` says that two signs differ.
- `not_lt_mul`, `not_lt_mul_of_negative`: the order of two products with one number.
- `not_lt_mul_div`: the order of two products with a quotient.
-/

namespace PixelCalc
namespace Binary64

open Float.Model (UnpackedFloat Format)
open Float.Model.UnpackedFloat

variable {m m' k k' i j : Nat} {e e' : Int} {r s t : Sign} {u v w : UnpackedFloat} {x y z : Float}

/-! ### Magnitudes of products -/

/-- A finite number in units of `2^-1074`. -/
def scaled (m : Nat) (e : Int) : Nat :=
  m * 2 ^ (e + 1074).toNat

/-- Numbers grow with their ranks. -/
theorem Canonical.scaled_le (h : Canonical m e k) (h' : Canonical m' e' k') (hk : k ≤ k') :
    scaled m e ≤ scaled m' e' := by
  obtain ⟨-, hupper, hlower, hexponent, hrank⟩ := h
  obtain ⟨-, hupper', hlower', hexponent', hrank'⟩ := h'
  unfold scaled
  obtain hlt | rfl | hgt := Int.lt_trichotomy e e'
  · -- twice the hidden bit is more than any significand
    have hhidden : hiddenBit ≤ m' := by omega
    calc m * 2 ^ (e + 1074).toNat
        ≤ hiddenBit * 2 * 2 ^ (e + 1074).toNat := Nat.mul_le_mul_right _ (by omega)
      _ = hiddenBit * 2 ^ ((e + 1074).toNat + 1) := by rw [Nat.pow_succ', Nat.mul_assoc]
      _ ≤ m' * 2 ^ (e' + 1074).toNat :=
        Nat.mul_le_mul hhidden (Nat.pow_le_pow_right Nat.two_pos (by omega))
  · exact Nat.mul_le_mul_right _ (by omega)
  · unfold hiddenBit at *
    omega

/-- The product of two finite numbers is rounded as a number of units of `2^-2148`. -/
theorem rounded_mul (h : Canonical m e k) (h' : Canonical m' e' k') (s : Sign) :
    Rounded (roundWithAccuracy Format.binary64 s (m * m') (e + e') .exact) s
      (roundedRank (scaled m e * scaled m' e')) := by
  obtain ⟨n, hn⟩ : ∃ n, n = (e + 1074).toNat + (e' + 1074).toNat := ⟨_, rfl⟩
  have hexponent := h.exponent
  have hexponent' := h'.exponent
  have hproduct : scaled m e * scaled m' e' = m * m' * 2 ^ n := by
    rw [scaled, scaled, Nat.mul_mul_mul_comm, ← Nat.pow_add, hn]
  have hunits : e + e' = (n : Int) - 2148 := by omega
  have hne : m * m' ≠ 0 := Nat.mul_ne_zero (Nat.ne_of_gt h.pos) (Nat.ne_of_gt h'.pos)
  have hle : n ≤ lastPlace (m * m' * 2 ^ n) := by
    unfold lastPlace
    rw [log2_mul_two_pow hne]
    -- two numbers with the least exponent have no units to lose, all others have 53 bits to keep
    by_cases hsubnormal : e = -1074 ∧ e' = -1074
    · omega
    · have hbits : hiddenBit ≤ m * m' := by
        obtain hlarge | hlarge : hiddenBit ≤ m ∨ hiddenBit ≤ m' := by
          have hlower := h.lower
          have hlower' := h'.lower
          omega
        · exact Nat.le_trans hlarge (Nat.le_mul_of_pos_right m h'.pos)
        · exact Nat.le_trans hlarge (Nat.le_mul_of_pos_left m' h.pos)
      have hlog : 52 ≤ (m * m').log2 := (Nat.le_log2 hne).mpr hbits
      omega
  rw [hproduct, hunits]
  exact roundWithAccuracy_exact s hne hle

theorem rankOfBits_pack_zero (s : Sign) : rankOfBits (pack Format.binary64 (.zero s)) = 0 :=
  rankOfBits_packComponents s 0#11 0#52

theorem rankOfBits_pack_infinity (s : Sign) :
    rankOfBits (pack Format.binary64 (.infinity s)) = infinityRank :=
  rankOfBits_packComponents s (-1#11) 0#52

/-- A product with zero has no magnitude. -/
theorem Ranked.mul_eq_zero (hu : Ranked u s i) (hv : Ranked v t j) (h : i = 0 ∨ j = 0)
    (hmul : UnpackedFloat.mul Format.binary64 u v ≠ .notANumber) :
    rankOfBits (pack Format.binary64 (UnpackedFloat.mul Format.binary64 u v)) = 0 := by
  have hpos : 0 < infinityRank := by decide
  cases hu with
  | zero =>
    cases hv with
    | infinity => exact absurd rfl hmul
    | _ => exact rankOfBits_pack_zero _
  | infinity =>
    cases hv with
    | zero => exact absurd rfl hmul
    | infinity => omega
    | finite hv =>
      have := hv.rank_pos
      omega
  | finite hu =>
    have := hu.rank_pos
    cases hv with
    | zero => exact rankOfBits_pack_zero _
    | infinity => omega
    | finite hv =>
      have := hv.rank_pos
      omega

/-- A product of magnitudes is infinite if one of them is; else it is rounded, and cut at the
infinities. -/
theorem Ranked.mul_eq (hu : Ranked u s i) (hv : Ranked v t j) (hi : 0 < i) (hj : 0 < j) :
    (infinityRank ≤ max i j ∧
        rankOfBits (pack Format.binary64 (UnpackedFloat.mul Format.binary64 u v)) = infinityRank) ∨
      max i j < infinityRank ∧ ∃ m e m' e', Canonical m e i ∧ Canonical m' e' j ∧
        rankOfBits (pack Format.binary64 (UnpackedFloat.mul Format.binary64 u v)) =
          min (roundedRank (scaled m e * scaled m' e')) infinityRank := by
  cases hu with
  | zero => exact absurd hi (Nat.lt_irrefl 0)
  | infinity =>
    cases hv with
    | zero => exact absurd hj (Nat.lt_irrefl 0)
    | _ => exact .inl ⟨Nat.le_max_left .., rankOfBits_pack_infinity _⟩
  | finite hu hi =>
    cases hv with
    | zero => exact absurd hj (Nat.lt_irrefl 0)
    | infinity => exact .inl ⟨Nat.le_max_right .., rankOfBits_pack_infinity _⟩
    | finite hv hj =>
      exact .inr ⟨Nat.max_lt.mpr ⟨hi, hj⟩, _, _, _, _, hu, hv,
        (rounded_mul hu hv _).rankOfBits_pack⟩

/-- The larger one of two magnitudes has the larger product with a third one. -/
theorem Ranked.mul_le (hu : Ranked u s i) (hv : Ranked v t j) (hw : Ranked w r k) (h : i ≤ j)
    (hmul : UnpackedFloat.mul Format.binary64 u w ≠ .notANumber) :
    rankOfBits (pack Format.binary64 (UnpackedFloat.mul Format.binary64 u w)) ≤
      rankOfBits (pack Format.binary64 (UnpackedFloat.mul Format.binary64 v w)) := by
  by_cases hzero : i = 0 ∨ k = 0
  · rw [hu.mul_eq_zero hw hzero hmul]
    exact Nat.zero_le _
  · have hi : 0 < i := by omega
    have hk : 0 < k := by omega
    obtain ⟨hinfinite, huw⟩ | ⟨-, m, e, n, f, hm, hn, huw⟩ := hu.mul_eq hw hi hk
    · obtain ⟨-, hvw⟩ | ⟨hfinite, -⟩ := hv.mul_eq hw (Nat.lt_of_lt_of_le hi h) hk
      · exact Nat.le_of_eq (huw.trans hvw.symm)
      · omega
    · rw [huw]
      obtain ⟨-, hvw⟩ | ⟨-, m', e', n', f', hm', hn', hvw⟩ :=
        hv.mul_eq hw (Nat.lt_of_lt_of_le hi h) hk
      · rw [hvw]
        exact Nat.min_le_right ..
      -- both products are finite: the exact ones are in order, and rounding keeps it
      · have hle : scaled m e * scaled n f ≤ scaled m' e' * scaled n' f' :=
          Nat.mul_le_mul (hm.scaled_le hm' h) (hn.scaled_le hn' (Nat.le_refl k))
        have hrounded := roundedRank_mono hle
        rw [hvw]
        omega

/-- A quotient of zero has no magnitude. -/
theorem Ranked.div_eq_zero (hu : Ranked u s 0)
    (hdiv : UnpackedFloat.div Format.binary64 u v ≠ .notANumber) :
    rankOfBits (pack Format.binary64 (UnpackedFloat.div Format.binary64 u v)) = 0 := by
  obtain rfl := hu.eq_zero rfl
  cases v with
  | notANumber => exact absurd rfl hdiv
  | zero => exact absurd rfl hdiv
  | _ => exact rankOfBits_pack_zero _

/-! ### Signs -/

theorem unpackedSign_roundWithAccuracy (s : Sign) (m : Nat) (e : Int) (accuracy : Accuracy) :
    unpackedSign (roundWithAccuracy Format.binary64 s m e accuracy) = s := by
  unfold roundWithAccuracy
  dsimp only
  rw [apply_dite unpackedSign]
  exact dite_eq_left_iff.mpr fun _ => rfl

theorem unpackedSign_mul (h : UnpackedFloat.mul Format.binary64 u v ≠ .notANumber) :
    unpackedSign (UnpackedFloat.mul Format.binary64 u v) = unpackedSign u * unpackedSign v := by
  cases u <;> cases v <;>
    first | exact absurd rfl h | exact unpackedSign_roundWithAccuracy .. | rfl

theorem unpackedSign_div (h : UnpackedFloat.div Format.binary64 u v ≠ .notANumber) :
    unpackedSign (UnpackedFloat.div Format.binary64 u v) = unpackedSign u / unpackedSign v := by
  cases u <;> cases v <;>
    first | exact absurd rfl h | exact unpackedSign_roundWithAccuracy .. | rfl

theorem mul_ne_notANumber (h : (x * y).isNaN = false) :
    UnpackedFloat.mul Format.binary64 x.toModel.unpack y.toModel.unpack ≠ .notANumber := by
  intro hnan
  have hmodel : (unpack Format.binary64 (pack Format.binary64
      (UnpackedFloat.mul Format.binary64 x.toModel.unpack y.toModel.unpack))).isNaN = false := h
  rw [hnan] at hmodel
  exact absurd hmodel (by decide)

theorem div_ne_notANumber (h : (x / y).isNaN = false) :
    UnpackedFloat.div Format.binary64 x.toModel.unpack y.toModel.unpack ≠ .notANumber := by
  intro hnan
  have hmodel : (unpack Format.binary64 (pack Format.binary64
      (UnpackedFloat.div Format.binary64 x.toModel.unpack y.toModel.unpack))).isNaN = false := h
  rw [hnan] at hmodel
  exact absurd hmodel (by decide)

theorem sign_eq (h : x.isNaN = false) : unpackedSign x.toModel.unpack = sign x :=
  (ranked h).unpackedSign_eq

/-- The factors of a product that is not NaN are not NaN either. -/
theorem isNaN_of_mul (h : (x * y).isNaN = false) : x.isNaN = false ∧ y.isNaN = false := by
  have hne := mul_ne_notANumber h
  show x.toModel.unpack.isNaN = false ∧ y.toModel.unpack.isNaN = false
  cases hx : x.toModel.unpack <;> cases hy : y.toModel.unpack <;> rw [hx, hy] at hne <;>
    first | exact absurd rfl hne | exact ⟨rfl, rfl⟩

/-- A quotient is a number only if both of its parts are. -/
theorem isNaN_of_div (h : (x / y).isNaN = false) : x.isNaN = false ∧ y.isNaN = false := by
  have hne := div_ne_notANumber h
  show x.toModel.unpack.isNaN = false ∧ y.toModel.unpack.isNaN = false
  cases hx : x.toModel.unpack <;> cases hy : y.toModel.unpack <;> rw [hx, hy] at hne <;>
    first | exact absurd rfl hne | exact ⟨rfl, rfl⟩

/-- A product that is a number has the product of the signs. -/
theorem sign_mul (h : (x * y).isNaN = false) : sign (x * y) = sign x * sign y := by
  obtain ⟨hx, hy⟩ := isNaN_of_mul h
  rw [← sign_eq hx, ← sign_eq hy, ← unpackedSign_mul (mul_ne_notANumber h)]
  exact sign_pack _

theorem sign_div (h : (x / y).isNaN = false) : sign (x / y) = sign x / sign y := by
  obtain ⟨hx, hy⟩ := isNaN_of_div h
  rw [← sign_eq hx, ← sign_eq hy, ← unpackedSign_div (div_ne_notANumber h)]
  exact sign_pack _

theorem rank_div_eq_zero (h : (x / y).isNaN = false) (hzero : rank x = 0) : rank (x / y) = 0 := by
  have hx := ranked (isNaN_of_div h).1
  rw [hzero] at hx
  exact hx.div_eq_zero (div_ne_notANumber h)

/-- One of two numbers is negative, the other one positive. -/
def Opposite (x y : Float) : Prop :=
  x < 0 ∧ 0 < y ∨ 0 < x ∧ y < 0

/-- A quotient of two numbers is negative if their signs are opposite, and positive or zero if not. -/
theorem sign_div_cases (h : (x / y).isNaN = false) (hy : rank y ≠ 0) :
    (Opposite x y → sign (x / y) = .negative) ∧
      (¬ Opposite x y → sign (x / y) = .positive ∨ rank (x / y) = 0) := by
  obtain ⟨hxnumber, hynumber⟩ := isNaN_of_div h
  have hzero := rank_div_eq_zero h
  rw [sign_div h, Opposite, neg_iff hxnumber, pos_iff hxnumber, neg_iff hynumber, pos_iff hynumber]
  have hypos := Nat.pos_of_ne_zero hy
  obtain hx | hxpos := Nat.eq_zero_or_pos (rank x)
  · simp [hx, hzero hx]
  · cases sign x <;> cases sign y
    · exact ⟨by simp, fun _ => .inl rfl⟩
    · exact ⟨fun _ => rfl, fun h => absurd (.inl ⟨⟨rfl, hxpos⟩, rfl, hypos⟩) h⟩
    · exact ⟨fun _ => rfl, fun h => absurd (.inr ⟨⟨rfl, hxpos⟩, rfl, hypos⟩) h⟩
    · exact ⟨by simp, fun _ => .inl rfl⟩

/-! ### The order of products -/

theorem rank_mul_eq_zero (h : (x * y).isNaN = false) (hzero : rank x = 0 ∨ rank y = 0) :
    rank (x * y) = 0 := by
  obtain ⟨hx, hy⟩ := isNaN_of_mul h
  exact (ranked hx).mul_eq_zero (ranked hy) hzero (mul_ne_notANumber h)

/-- Multiplying by the same number keeps the order of the magnitudes. -/
theorem rank_mul_le (h : (x * z).isNaN = false) (hy : y.isNaN = false) (hle : rank x ≤ rank y) :
    rank (x * z) ≤ rank (y * z) := by
  obtain ⟨hx, hz⟩ := isNaN_of_mul h
  exact (ranked hx).mul_le (ranked hy) (ranked hz) hle (mul_ne_notANumber h)

theorem apply_apply_mul (s t : Sign) (i : Int) : t.apply ((s * t).apply i) = s.apply i := by
  cases s <;> cases t <;> first | rfl | exact Int.neg_neg i

/-- Multiplied by a number, two numbers keep their order, or have it reversed if that number is
negative. -/
theorem place_mul_le (hx : (x * z).isNaN = false) (hy : (y * z).isNaN = false)
    (h : place x ≤ place y) :
    (sign z).apply (place (x * z)) ≤ (sign z).apply (place (y * z)) := by
  obtain ⟨hxnumber, -⟩ := isNaN_of_mul hx
  obtain ⟨hynumber, -⟩ := isNaN_of_mul hy
  have hle := rank_mul_le (z := z) hx hynumber
  have hge := rank_mul_le (z := z) hy hxnumber
  have hxzero := fun h => rank_mul_eq_zero hx (.inl h)
  have hyzero := fun h => rank_mul_eq_zero hy (.inl h)
  -- with the signs cancelled, each of the four cases is an order of ranks
  unfold place at *
  rw [sign_mul hx, sign_mul hy, apply_apply_mul, apply_apply_mul]
  cases hs : sign x <;> cases ht : sign y <;> rw [hs, ht] at h <;> simp only [Sign.apply] at h ⊢ <;>
    omega

/-- A positive factor keeps the order of two numbers. -/
theorem not_lt_mul (hx : x.isNaN = false) (hy : y.isNaN = false) (h : ¬ x < y)
    (hz : sign z = .positive) : ¬ x * z < y * z := by
  refine not_lt_of_place_le fun hxz hyz => ?_
  have hplace := place_mul_le hyz hxz (place_le_of_not_lt hx hy h)
  rwa [hz] at hplace

/-- A negative factor turns it round. -/
theorem not_lt_mul_of_negative (hx : x.isNaN = false) (hy : y.isNaN = false) (h : ¬ x < y)
    (hz : sign z = .negative) : ¬ y * z < x * z := by
  refine not_lt_of_place_le fun hyz hxz => ?_
  have hplace := place_mul_le hyz hxz (place_le_of_not_lt hx hy h)
  rw [hz] at hplace
  exact Int.neg_le_neg_iff.mp hplace

/-- No product with zero is above another one. -/
theorem not_lt_mul_of_rank_eq_zero (hz : rank z = 0) : ¬ x * z < y * z := by
  refine not_lt_of_place_le fun hxz hyz => ?_
  rw [place, place, rank_mul_eq_zero hxz (.inr hz), rank_mul_eq_zero hyz (.inr hz)]
  cases sign (x * z) <;> cases sign (y * z) <;> decide

/-- Scaled by a quotient, two numbers keep their order, or have it reversed if the signs of the
numerator and the denominator are opposite. -/
theorem not_lt_mul_div {target d : Float} (hx : x.isNaN = false) (hy : y.isNaN = false)
    (h : ¬ x < y) (hd : rank d ≠ 0) :
    (¬ Opposite target d → ¬ x * (target / d) < y * (target / d)) ∧
      (Opposite target d → ¬ y * (target / d) < x * (target / d)) := by
  cases hz : (target / d).isNaN with
  | true =>
    -- a factor that is no number makes both products such, and these never compare as less
    have hnan (a b : Float) : ¬ a * (target / d) < b * (target / d) :=
      not_lt_of_place_le fun hproduct _ => by
        rw [(isNaN_of_mul hproduct).2] at hz
        cases hz
    exact ⟨fun _ => hnan x y, fun _ => hnan y x⟩
  | false =>
    obtain ⟨hopposite, hsame⟩ := sign_div_cases hz hd
    refine ⟨fun hsigns => ?_, fun hsigns => not_lt_mul_of_negative hx hy h (hopposite hsigns)⟩
    obtain hpositive | hzero := hsame hsigns
    · exact not_lt_mul hx hy h hpositive
    · exact not_lt_mul_of_rank_eq_zero hzero

end Binary64
end PixelCalc
