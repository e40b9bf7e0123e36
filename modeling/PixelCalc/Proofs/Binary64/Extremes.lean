import PixelCalc.Binary64.Order
import PixelCalc.Proofs.Binary64.Equality

/-!
# Extremes of numbers

To pick the smaller number from left to right may start with the first number or with an infinity,
which is smaller than none. Both give the same, unless there is no number but NaN: then the infinity
is what remains.

- `lt_infinity`, `negInfinity_lt`: the infinities are beyond all other numbers.
- `Picks`: what is needed of an operation that picks one of two numbers and its infinity.
- `picks_smaller`, `picks_larger`: the two operations.
- `Picks.foldl_mem`, `Picks.foldl_eq`, `Picks.foldl_of_isNaN`: what is picked from a list.
-/

namespace PixelCalc
namespace Binary64

open Float.Model (UnpackedFloat)

variable {x y : Float}

/-! ### Comparing with NaN and with the infinities -/

theorem lt_iff_compare : x < y ↔ x.toModel.unpack.compare y.toModel.unpack = some .lt := by
  have hlt : x < y ↔ (x.toModel.unpack.compare y.toModel.unpack == some .lt) = true :=
    decide_eq_true_iff
  rw [hlt, beq_iff_eq]

theorem unpack_of_isNaN (h : x.isNaN = true) : x.toModel.unpack = .notANumber := by
  have hmodel : x.toModel.unpack.isNaN = true := h
  cases hx : x.toModel.unpack with
  | notANumber => rfl
  | _ =>
    rw [hx] at hmodel
    cases hmodel

/-- NaN is neither less nor greater than anything. -/
theorem not_lt_of_isNaN (h : y.isNaN = true) : ¬ x < y ∧ ¬ y < x := by
  simp only [lt_iff_compare, unpack_of_isNaN h]
  constructor
  · cases x.toModel.unpack <;> nofun
  · nofun

/-- Every number is below the infinity or is it. -/
theorem lt_infinity (h : x.isNaN = false) : x < 1 / 0 ∨ x = 1 / 0 := by
  have hmodel : x.toModel.unpack.isNaN = false := h
  have hinfinity : (1 / 0 : Float).toModel.unpack = .infinity .positive := rfl
  rw [lt_iff_compare, hinfinity]
  cases hx : x.toModel.unpack with
  | notANumber =>
    rw [hx] at hmodel
    cases hmodel
  | infinity s =>
    cases s with
    | positive => exact .inr (eq_of_toBitVec (infinity_of_unpack hx))
    | negative => exact .inl rfl
  | zero s => exact .inl rfl
  | finite s m e hm => cases s <;> exact .inl rfl

/-- Every number is above the negative infinity or is it. -/
theorem negInfinity_lt (h : x.isNaN = false) : -1 / 0 < x ∨ x = -1 / 0 := by
  have hmodel : x.toModel.unpack.isNaN = false := h
  have hinfinity : (-1 / 0 : Float).toModel.unpack = .infinity .negative := rfl
  rw [lt_iff_compare, hinfinity]
  cases hx : x.toModel.unpack with
  | notANumber =>
    rw [hx] at hmodel
    cases hmodel
  | infinity s =>
    cases s with
    | positive => exact .inl rfl
    | negative => exact .inr (eq_of_toBitVec (infinity_of_unpack hx))
  | zero s => exact .inl rfl
  | finite s m e hm => cases s <;> exact .inl rfl

/-! ### Picking one of two numbers -/

/-- The operation picks one of two numbers, NaN last, and `seed` last among the others. -/
structure Picks (pick : Float → Float → Float) (seed : Float) : Prop where
  eq_or : ∀ x y, pick x y = x ∨ pick x y = y
  of_nan : ∀ {x} y, x.isNaN = true → pick x y = y
  nan : ∀ {y}, y.isNaN = true → pick seed y = seed
  seed : ∀ {x}, x.isNaN = false → pick seed x = x

theorem picks_smaller : Picks smaller (1 / 0) where
  eq_or := smaller_eq
  of_nan y h := if_pos h
  nan h := (if_neg (by decide)).trans (if_neg (not_lt_of_isNaN h).2)
  seed h := by
    obtain hlt | rfl := lt_infinity h
    · exact (if_neg (by decide)).trans (if_pos hlt)
    · decide

theorem picks_larger : Picks larger (-1 / 0) where
  eq_or := larger_eq
  of_nan y h := if_pos h
  nan h := (if_neg (by decide)).trans (if_neg (not_lt_of_isNaN h).1)
  seed h := by
    obtain hlt | rfl := negInfinity_lt h
    · exact (if_neg (by decide)).trans (if_pos hlt)
    · decide

namespace Picks

variable {pick : Float → Float → Float} {seed : Float} {xs : List Float}

/-- What is picked is one of the numbers. -/
theorem foldl_mem (h : Picks pick seed) (x : Float) (xs : List Float) :
    xs.foldl pick x ∈ x :: xs := by
  induction xs generalizing x with
  | nil => exact List.mem_singleton_self x
  | cons y xs ih =>
    rw [List.foldl_cons]
    obtain hmem | hmem := List.mem_cons.mp (ih (pick x y))
    · rw [hmem]
      obtain heq | heq := h.eq_or x y
      · rw [heq]
        exact List.mem_cons_self
      · rw [heq]
        exact .tail _ List.mem_cons_self
    · exact .tail _ (.tail _ hmem)

/-- Up to the first number that is not NaN, starting with the seed is like starting with NaN. -/
theorem foldl_seed (h : Picks pick seed) (hx : x.isNaN = true) (hxs : ∃ y ∈ xs, y.isNaN = false) :
    xs.foldl pick seed = xs.foldl pick x := by
  induction xs generalizing x with
  | nil =>
    obtain ⟨y, hy, -⟩ := hxs
    exact absurd hy List.not_mem_nil
  | cons y xs ih =>
    rw [List.foldl_cons, List.foldl_cons, h.of_nan y hx]
    cases hy : y.isNaN with
    | false => rw [h.seed hy]
    | true =>
      rw [h.nan hy]
      refine ih hy ?_
      obtain ⟨z, hz, hnumber⟩ := hxs
      obtain rfl | hz := List.mem_cons.mp hz
      · cases hy.symm.trans hnumber
      · exact ⟨z, hz, hnumber⟩

/-- To start with the seed is to start with the first number, if not all are NaN. -/
theorem foldl_eq (h : Picks pick seed) (hxs : ∃ y ∈ x :: xs, y.isNaN = false) :
    (x :: xs).foldl pick seed = xs.foldl pick x :=
  calc (x :: xs).foldl pick seed = (x :: xs).foldl pick (0 / 0) := h.foldl_seed (by decide) hxs
    _ = xs.foldl pick x := by rw [List.foldl_cons, h.of_nan x (by decide)]

/-- Nothing is picked but the seed, if all numbers are NaN. -/
theorem foldl_of_isNaN (h : Picks pick seed) (hxs : ∀ x ∈ xs, x.isNaN = true) :
    xs.foldl pick seed = seed := by
  induction xs with
  | nil => rfl
  | cons x xs ih =>
    obtain ⟨hx, hxs⟩ := List.forall_mem_cons.mp hxs
    rw [List.foldl_cons, h.nan hx]
    exact ih hxs

end Picks

end Binary64
end PixelCalc
