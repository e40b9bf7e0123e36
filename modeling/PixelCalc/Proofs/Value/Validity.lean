import PixelCalc.Proofs.Matrix.Validity
import PixelCalc.Value.Operation

/-!
# Operators keep matrices valid

- `Value.Valid`: a matrix among the values is valid.
- `Fault.ofConstruction`: the faults of a matrix that was built and is none.
- `Value.Sound`: valid, and no such fault.
- `Operator.sound_onValues`: operators make sound values of valid ones.
-/

namespace PixelCalc

/-- The fault says that a matrix was built against a check or an assertion. -/
def Fault.ofConstruction : Fault → Bool
  | badMatrix .. => true
  | broken _ => true
  | _ => false

namespace Value

/-- The value is a valid matrix, or no matrix. -/
def Valid : Value → Prop
  | matrix m => m.Valid
  | _ => True

/-- The value is valid, and no fault of a construction. -/
def Sound : Value → Prop
  | matrix m => m.Valid
  | error fault => fault.ofConstruction = false
  | _ => True

variable {v : Value}

/-- Soundness is the stronger of the two: it also says something about errors. -/
theorem Sound.valid (h : v.Sound) : v.Valid := by
  cases v with
  | matrix m => exact h
  | _ => trivial

/-- Only a fault may be valid without being sound. -/
theorem Valid.sound (h : v.Valid) (hv : v.isError = false) : v.Sound := by
  cases v with
  | matrix m => exact h
  | error fault => cases hv
  | _ => trivial

end Value

namespace Operation

variable {left right : Value}

/-- A construction that meets its assertions is sound. -/
theorem sound_ofConstruction {x : Except Assertion Matrix} (h : ∃ m, x = .ok m ∧ m.Valid) :
    (ofConstruction x).Sound := by
  obtain ⟨m, rfl, hm⟩ := h
  exact hm

/-- Arithmetic builds matrices entry by entry, so its constructions meet their assertions. -/
theorem sound_arithmetic (op : Operator) (f : Float → Float → Float) (hl : left.Valid)
    (hr : right.Valid) : (arithmetic op f left right).Sound := by
  unfold arithmetic
  split
  · trivial
  · exact sound_ofConstruction (Matrix.Valid.map hr _)
  · exact sound_ofConstruction (Matrix.Valid.map hl _)
  · split
    · rename_i hshape
      obtain ⟨m, hm, hvalid, -⟩ := Matrix.Valid.zipWith hl hr hshape f
      exact sound_ofConstruction ⟨m, hm, hvalid⟩
    · rfl
  all_goals rfl

/-- A power of a matrix is a map over its entries. -/
theorem sound_power (hl : left.Valid) : (power left right).Sound := by
  unfold power
  split
  · trivial
  · exact sound_ofConstruction (Matrix.Valid.map hl _)
  · split
    · trivial
    · rfl
  all_goals rfl

/-- A range holds no matrix, and its errors are about bounds. -/
theorem sound_range (left right : Value) : (range left right).Sound := by
  have hbound {side : Side} {v : Value} {fault : Fault}
      (h : rangeBound side v = .error fault) : fault.ofConstruction = false := by
    unfold rangeBound at h
    split at h
    · cases h
    · split at h <;> cases h
      rfl
    · cases h
      rfl
  unfold range
  split
  · rename_i h
    exact hbound h
  · split
    · rename_i h
      exact hbound h
    · trivial

/-- A comparison of matrices is a mask with the rows and columns of the left one. -/
theorem sound_comparison (op : Operator) (test : Float → Float → Bool) (hl : left.Valid) :
    (comparison op test left right).Sound := by
  unfold comparison
  split
  · trivial
  · exact Matrix.Valid.maskBy hl _
  · split
    · rename_i hshape
      exact sound_ofConstruction (Matrix.Valid.maskZip hl hshape test)
    · rfl
  all_goals rfl

/-- An assignment hands its right operand on. -/
theorem sound_assignment (hr : right.Sound) : (assignment left right).Sound := by
  unfold assignment
  split
  · exact hr
  · rfl

end Operation

open Operation

/-- Operators make sound values of valid operands, so they meet all assertions. -/
theorem Operator.sound_onValues (op : Operator) {left right : Value} (hl : left.Valid)
    (hr : right.Sound) : (op.onValues left right).Sound := by
  cases op with
  | plus | minus | times | divide | remainder => exact sound_arithmetic _ _ hl hr.valid
  | power => exact sound_power hl
  | range => exact sound_range left right
  | equal | notEqual | greater | greaterEqual | less | lessEqual => exact sound_comparison _ _ hl
  | assign => exact sound_assignment hr

/-- The value of an operation is valid, whatever the operands are. -/
theorem Operator.valid_compute (op : Operator) {left right : Value} (hl : left.Valid)
    (hr : right.Valid) : (op.compute left right).Valid := by
  unfold compute
  split
  · trivial
  · trivial
  · rename_i hleft hright
    refine (op.sound_onValues hl (hr.sound ?_)).valid
    cases right with
    | error fault => exact absurd rfl (hright fault)
    | _ => rfl

end PixelCalc
