/-!
# Letter case

Names of functions and of matrix tags are compared without regard to the case of the letters `A` to
`Z`. Other letters keep their case.
-/

namespace PixelCalc
namespace Text

/-- Equality up to the case of the letters `A` to `Z`. -/
def sameLetters (a b : String) : Bool :=
  a.toLower == b.toLower

theorem toList_toLower (s : String) : s.toLower.toList = s.toList.map Char.toLower := by
  show (s.map Char.toLower).toList = _
  rw [String.toList_map]

theorem sameLetters_iff {a b : String} :
    sameLetters a b = true ↔ a.toList.map Char.toLower = b.toList.map Char.toLower := by
  rw [sameLetters, beq_iff_eq, ← String.toList_inj, toList_toLower, toList_toLower]

theorem sameLetters_refl (a : String) : sameLetters a a = true := by
  simp [sameLetters]

end Text
end PixelCalc
