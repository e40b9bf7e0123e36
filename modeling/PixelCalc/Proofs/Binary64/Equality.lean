import PixelCalc.Binary64.Rounding

/-!
# Doubles that compare as equal

`==` compares the values of two doubles, which are read off their bits. It says less than `=`: NaN
differs from itself, and the two zeros are equal. Everything else that compares as equal has the
same bits.

- `toNat_bits`: the bits of a double are its sign, its exponent and its fraction.
- `eq_of_compare`: what two doubles of which neither is less have in common.
- `eq_of_beq`: doubles that compare as equal are the same, but for the sign of zero.
-/

namespace PixelCalc
namespace Binary64

open Float.Model (UnpackedFloat Format)
open Float.Model.UnpackedFloat

/-! ### Bits -/

variable {b b' : BitVec 64} {s : Sign} {m : Nat} {e : Int}

/-- The bits are the sign, then the exponent, then the fraction. -/
theorem toNat_bits (b : BitVec 64) :
    b.toNat = (@unpackSign Format.binary64 b).toNat * (0x800 * hiddenBit) +
      (@unpackExponent Format.binary64 b).toNat * hiddenBit +
      (@unpackMantissa Format.binary64 b).toNat := by
  have h := b.isLt
  have hsign : (@unpackSign Format.binary64 b).toNat = (b.extractLsb 63 63).toNat := rfl
  rw [hsign]
  simp [unpackExponent, unpackMantissa, Nat.shiftRight_eq_div_pow, hiddenBit]
  omega

theorem ofBitVec_injective {s t : BitVec 1} (h : Sign.ofBitVec s = Sign.ofBitVec t) : s = t := by
  rcases s.eq_zero_or_eq_one with rfl | rfl <;> rcases t.eq_zero_or_eq_one with rfl | rfl <;>
    first | rfl | cases h

/-- The bits of a finite double that is not zero: a subnormal one has exponent 0, any other one has
a leading bit that is not stored. -/
structure Finite (b : BitVec 64) (s : Sign) (m : Nat) (e : Int) : Prop where
  sign : Sign.ofBitVec (@unpackSign Format.binary64 b) = s
  parts : (@unpackExponent Format.binary64 b).toNat = 0 ∧
      (@unpackMantissa Format.binary64 b).toNat = m ∧ e = -1074 ∨
    0 < (@unpackExponent Format.binary64 b).toNat ∧
      hiddenBit + (@unpackMantissa Format.binary64 b).toNat = m ∧
      e = (@unpackExponent Format.binary64 b).toNat - 1075

/-- What the bits of a double are, by what they are unpacked to. -/
inductive Unpacked (b : BitVec 64) : UnpackedFloat → Prop
  | infinity (hexponent : @unpackExponent Format.binary64 b = -1#_)
      (hmantissa : @unpackMantissa Format.binary64 b = 0#_) :
      Unpacked b (.infinity (Sign.ofBitVec (@unpackSign Format.binary64 b)))
  | notANumber : Unpacked b .notANumber
  | zero (hexponent : @unpackExponent Format.binary64 b = 0#_)
      (hmantissa : @unpackMantissa Format.binary64 b = 0#_) :
      Unpacked b (.zero (Sign.ofBitVec (@unpackSign Format.binary64 b)))
  | finite {s : Sign} {m : Nat} {e : Int} {hm : 0 < m} (h : Finite b s m e) :
      Unpacked b (.finite s m e hm)

/-- Every pattern of bits unpacks to the shape that its exponent selects. -/
theorem unpacked (b : BitVec 64) : Unpacked b (unpack Format.binary64 b) := by
  unfold unpack
  dsimp only
  by_cases hall : @unpackExponent Format.binary64 b = -1#_
  · rw [if_pos hall]
    by_cases hmantissa : @unpackMantissa Format.binary64 b = 0#_
    · rw [if_pos hmantissa]
      exact .infinity hall hmantissa
    · rw [if_neg hmantissa]
      exact .notANumber
  · rw [if_neg hall]
    by_cases hexponent : @unpackExponent Format.binary64 b = 0#_
    · rw [if_pos hexponent]
      by_cases hmantissa : @unpackMantissa Format.binary64 b = 0#_
      · rw [dif_pos hmantissa]
        exact .zero hexponent hmantissa
      · rw [dif_neg hmantissa]
        refine .finite ⟨rfl, .inl ⟨?_, rfl, ?_⟩⟩
        · rw [hexponent]
          rfl
        · rw [hexponent]
          rfl
    · rw [if_neg hexponent]
      refine .finite ⟨rfl, .inr ⟨?_, ?_, rfl⟩⟩
      · exact Nat.pos_of_ne_zero fun h => hexponent (BitVec.eq_of_toNat_eq h)
      · rw [BitVec.toNat_append, ← Nat.shiftLeft_add_eq_or_of_lt (BitVec.isLt _)]
        rfl

/-- The parts of a finite double are read off its bits. -/
theorem finite_of_unpack {hm : 0 < m} (h : unpack Format.binary64 b = .finite s m e hm) :
    Finite b s m e := by
  have hb := unpacked b
  rw [h] at hb
  cases hb with
  | finite h => exact h

theorem zero_of_unpack (h : unpack Format.binary64 b = .zero s) :
    b = packedZero Format.binary64 s := by
  have hb := unpacked b
  rw [h] at hb
  cases hb with
  | zero hexponent hmantissa =>
    apply BitVec.eq_of_toNat_eq
    rw [toNat_bits, hexponent, hmantissa]
    generalize @unpackSign Format.binary64 b = s
    revert s
    decide

theorem infinity_of_unpack (h : unpack Format.binary64 b = .infinity s) :
    b = packedInfinity Format.binary64 s := by
  have hb := unpacked b
  rw [h] at hb
  cases hb with
  | infinity hexponent hmantissa =>
    apply BitVec.eq_of_toNat_eq
    rw [toNat_bits, hexponent, hmantissa]
    generalize @unpackSign Format.binary64 b = s
    revert s
    decide

/-- Sign, significand and exponent determine the bits. -/
theorem Finite.unique (h : Finite b s m e) (h' : Finite b' s m e) : b = b' := by
  have hsign := ofBitVec_injective (h.sign.trans h'.sign.symm)
  -- a fraction is below the bit that is not stored, so the significand tells whether there is one
  have hm : (@unpackMantissa Format.binary64 b).toNat < hiddenBit := BitVec.isLt _
  have hm' : (@unpackMantissa Format.binary64 b').toNat < hiddenBit := BitVec.isLt _
  have hfields : (@unpackExponent Format.binary64 b).toNat =
        (@unpackExponent Format.binary64 b').toNat ∧
      (@unpackMantissa Format.binary64 b).toNat = (@unpackMantissa Format.binary64 b').toNat := by
    rcases h.parts with ⟨_, _, _⟩ | ⟨_, _, _⟩ <;> rcases h'.parts with ⟨_, _, _⟩ | ⟨_, _, _⟩ <;>
      omega
  apply BitVec.eq_of_toNat_eq
  rw [toNat_bits b, toNat_bits b', hsign, hfields.1, hfields.2]

/-! ### Equality -/

/-- Of which neither is less, two doubles are the same, but for the sign of zero. -/
theorem eq_of_compare {a b : UnpackedFloat} (h : a.compare b = some .eq) :
    a = b ∨ ∃ s t, a = .zero s ∧ b = .zero t := by
  cases a with
  | notANumber => cases b <;> cases h
  | infinity s =>
    cases b with
    | infinity t => cases s <;> cases t <;> first | exact .inl rfl | cases h
    | _ => cases s <;> cases h
  | zero s =>
    cases b with
    | zero t => exact .inr ⟨s, t, rfl, rfl⟩
    | infinity t => cases t <;> cases h
    | finite t => cases t <;> cases h
    | notANumber => cases h
  | finite s m e hm =>
    cases b with
    | finite t m' e' hm' =>
      -- equal exponents and mantissas are equal numbers; two negatives compare the other way round
      have hparts (h : (compare e e').then (compare m m') = .eq) : e = e' ∧ m = m' := by
        simpa [Ordering.then_eq_eq] using h
      cases s <;> cases t
      · have hswap : ((compare e e').then (compare m m')).swap = .eq := Option.some.inj h
        obtain ⟨rfl, rfl⟩ := hparts (Ordering.swap_eq_eq.mp hswap)
        exact .inl rfl
      · cases h
      · cases h
      · obtain ⟨rfl, rfl⟩ := hparts (Option.some.inj h)
        exact .inl rfl
    | infinity t => cases t <;> cases s <;> cases h
    | zero => cases s <;> cases h
    | notANumber => cases s <;> cases h

theorem eq_of_toBitVec {x y : Float} (h : x.toModel.toBits.toBitVec = y.toModel.toBits.toBitVec) :
    x = y := by
  obtain ⟨⟨⟨x⟩, _⟩⟩ := x
  obtain ⟨⟨⟨y⟩, _⟩⟩ := y
  cases h
  rfl

/-- Doubles that compare as equal are the same, but for the sign of zero. -/
theorem eq_of_beq {x y : Float} (h : (x == y) = true) :
    x = y ∨ (x = 0 ∨ x = -0) ∧ (y = 0 ∨ y = -0) := by
  have hzero {x : Float} {s : Sign} (h : x.toModel.unpack = .zero s) : x = 0 ∨ x = -0 := by
    cases s
    · exact .inr (eq_of_toBitVec (zero_of_unpack h))
    · exact .inl (eq_of_toBitVec (zero_of_unpack h))
  have hcompare : x.toModel.unpack.compare y.toModel.unpack = some .eq :=
    beq_iff_eq.mp (show (x.toModel.unpack.compare y.toModel.unpack == some .eq) = true from h)
  rcases eq_of_compare hcompare with heq | ⟨s, t, hx, hy⟩
  · refine .inl (eq_of_toBitVec ?_)
    cases hy : y.toModel.unpack with
    | notANumber =>
      rw [heq, hy] at hcompare
      cases hcompare
    | infinity s => rw [infinity_of_unpack (heq.trans hy), infinity_of_unpack hy]
    | zero s => rw [zero_of_unpack (heq.trans hy), zero_of_unpack hy]
    | finite s m e hm => exact (finite_of_unpack (heq.trans hy)).unique (finite_of_unpack hy)
  · exact .inr ⟨hzero hx, hzero hy⟩

end Binary64
end PixelCalc
