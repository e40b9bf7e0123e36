import PixelCalc.Matrix.Basic

/-!
# The numbers of a matrix in order

Read row by row, pixel by pixel and channel by channel, the entries of a matrix are its data.

- `flatMap_range_mul`: counting in two digits.
- `flatMap_pixel`: the pixels in order.
-/

namespace PixelCalc
namespace Matrix

/-- To count to a product is to count in two digits. -/
theorem flatMap_range_mul {α : Type} (f : Nat → List α) (a b : Nat) :
    ((List.range a).flatMap fun i => (List.range b).flatMap fun j => f (i * b + j)) =
      (List.range (a * b)).flatMap f := by
  induction a with
  | zero =>
    rw [Nat.zero_mul]
    rfl
  | succ a ih =>
    rw [List.range_succ, List.flatMap_append, ih, Nat.succ_mul, List.range_add,
      List.flatMap_append, List.flatMap_singleton, List.flatMap_map]

/-- The channels of a pixel. -/
def pixel (m : Matrix) (row col : Nat) : List Float :=
  (List.range m.channels).map fun channel => m.entry row col channel

theorem length_pixel (m : Matrix) (row col : Nat) : (m.pixel row col).length = m.channels := by
  rw [pixel, List.length_map, List.length_range]

/-- A matrix with as many numbers as it has entries holds these in order. -/
theorem flatMap_pixel {m : Matrix} (h : m.data.size = m.rows * m.cols * m.channels) :
    ((List.range m.rows).flatMap fun row => (List.range m.cols).flatMap fun col =>
      m.pixel row col) = m.data.toList := by
  have hpixel (row col : Nat) : m.pixel row col =
      (List.range m.channels).flatMap fun channel =>
        [m.data.getD ((row * m.cols + col) * m.channels + channel) 0] := by
    rw [← List.map_eq_flatMap]
    rfl
  calc ((List.range m.rows).flatMap fun row => (List.range m.cols).flatMap fun col =>
        m.pixel row col)
      = (List.range (m.rows * m.cols)).flatMap fun i => (List.range m.channels).flatMap fun k =>
          [m.data.getD (i * m.channels + k) 0] := by
        rw [← flatMap_range_mul]
        simp only [hpixel]
    _ = (List.range m.data.size).flatMap fun i => [m.data.getD i 0] := by
        rw [h]
        exact flatMap_range_mul (fun i => [m.data.getD i 0]) _ _
    _ = m.data.toList := by
        rw [← List.map_eq_flatMap]
        refine List.ext_getElem (by simp) fun i hi hi' => ?_
        have hsize : i < m.data.size := by simpa using hi
        simp [hsize]

end Matrix
end PixelCalc
