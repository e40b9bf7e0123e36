/-!
# The smaller and the larger of two numbers

NaN stands for a missing number: of NaN and a number the number is taken.
-/

namespace PixelCalc
namespace Binary64

/-- The smaller of two numbers, or the one that is no NaN. -/
def smaller (x y : Float) : Float :=
  if x.isNaN then y else if y < x then y else x

/-- The larger of two numbers, or the one that is no NaN. -/
def larger (x y : Float) : Float :=
  if x.isNaN then y else if x < y then y else x

/-- The number held between two bounds. The upper bound is applied last. -/
def clamp (x lower upper : Float) : Float :=
  smaller (larger x lower) upper

/-- The smaller of two numbers is one of them. -/
theorem smaller_eq (x y : Float) : smaller x y = x ∨ smaller x y = y := by
  unfold smaller
  split
  · exact .inr rfl
  · split
    · exact .inr rfl
    · exact .inl rfl

/-- The larger of two numbers is one of them. -/
theorem larger_eq (x y : Float) : larger x y = x ∨ larger x y = y := by
  unfold larger
  split
  · exact .inr rfl
  · split
    · exact .inr rfl
    · exact .inl rfl

end Binary64
end PixelCalc
