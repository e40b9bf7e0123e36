import PixelCalc.Builtin.Library

/-!
# What built-in functions return

Every built-in function returns a number or a matrix, whatever it is called with; all else that a
call may be is a fault.

- `ReturnsData`: what a body returns is a number or a matrix.
- `returnsData_run`: this is so of all bodies.
- `invoke_of_run`, `invoke_of_fault`: a call is what its body makes of the arguments.
- `invoke_isData`: a call is a number, a matrix or a fault.
-/

namespace PixelCalc

/-- The value is a number or a matrix. -/
def Value.IsData : Value → Prop
  | number _ => True
  | matrix _ => True
  | _ => False

namespace Builtin

/-- What the body returns, if it returns, is a number or a matrix. -/
def ReturnsData : Except Fault Value → Prop
  | .ok v => v.IsData
  | .error _ => True

variable {α : Type} {f : Builtin} {args : List Value}

/-- Only the last step of a body returns. -/
theorem ReturnsData.bind {x : Except Fault α} {body : α → Except Fault Value}
    (h : ∀ a, ReturnsData (body a)) : ReturnsData (x >>= body) := by
  cases x with
  | ok a => exact h a
  | error fault => trivial

/-- A choice returns data if both of its branches do. -/
theorem returnsData_ite {c : Prop} [Decidable c] {x y : Except Fault Value} (hx : ReturnsData x)
    (hy : ReturnsData y) : ReturnsData (if c then x else y) := by
  by_cases h : c
  · rw [if_pos h]
    exact hx
  · rw [if_neg h]
    exact hy

/-- A checked construction returns a matrix or a fault. -/
theorem returnsData_finish (x : Except MatrixError Matrix) : ReturnsData (finish f x) := by
  cases x <;> trivial

theorem returnsData_matrix (x : Except Fault Matrix) :
    ReturnsData (x >>= fun m => .ok (.matrix m)) :=
  .bind fun _ => trivial

/-! ### Bodies -/

theorem returnsData_runAbs : ReturnsData (runAbs args) := by
  refine .bind fun v => ?_
  cases v with
  | matrix m => exact returnsData_matrix _
  | _ => trivial

/-- One of the three overloads returns, and the types that fit none of them do not. -/
theorem returnsData_runClamp : ReturnsData (runClamp args) := by
  refine .bind fun vs => ?_
  split
  · exact .bind fun _ => trivial
  · exact .bind fun _ => returnsData_matrix _
  · exact .bind fun _ => .bind fun _ => .bind fun _ => returnsData_matrix _
  all_goals trivial

/-- A lone matrix is reduced to a number, several give a matrix. -/
theorem returnsData_runExtreme {pick : Float → Float → Float} {reduce : Matrix → Float} :
    ReturnsData (runExtreme f pick reduce args) := by
  unfold runExtreme
  split
  · trivial
  · exact .bind fun _ => trivial
  · trivial
  · exact returnsData_matrix _
  · trivial

/-- Scaling returns a matrix, unless the greatest entry is of no use as a scale. -/
theorem returnsData_runNormalizeTo : ReturnsData (runNormalizeTo args) := by
  refine .bind fun _ => .bind fun m => .bind fun target => ?_
  exact returnsData_ite trivial (returnsData_matrix _)

theorem returnsData_runToImage : ReturnsData (runToImage args) :=
  .bind fun _ => .bind fun _ => returnsData_ite (returnsData_finish _) trivial

theorem returnsData_runToMatrix : ReturnsData (runToMatrix args) :=
  .bind fun _ => .bind fun _ => returnsData_finish _

theorem returnsData_runGetChannelCount : ReturnsData (runGetChannelCount args) :=
  .bind fun _ => .bind fun _ => trivial

theorem returnsData_runGetChannel : ReturnsData (runGetChannel args) :=
  .bind fun _ => .bind fun _ => .bind fun _ => .bind fun _ => returnsData_matrix _

theorem returnsData_runReplaceChannel : ReturnsData (runReplaceChannel args) := by
  refine .bind fun _ => .bind fun _ => .bind fun _ => .bind fun _ => .bind fun _ => ?_
  exact .bind fun _ => .bind fun _ => returnsData_finish _

/-- Without matrices there is nothing to return. -/
theorem returnsData_runCombineChannels : ReturnsData (runCombineChannels args) := by
  refine .bind fun ms => ?_
  split
  · trivial
  · exact .bind fun _ => returnsData_ite trivial (returnsData_matrix _)

theorem returnsData_runRgbReplace : ReturnsData (runRgbReplace args) := by
  refine .bind fun _ => .bind fun _ => .bind fun _ => ?_
  exact .bind fun _ => .bind fun _ => .bind fun _ => returnsData_finish _

theorem returnsData_runAlphaReplace : ReturnsData (runAlphaReplace args) := by
  refine .bind fun _ => .bind fun _ => .bind fun _ => ?_
  exact .bind fun _ => .bind fun _ => .bind fun _ => returnsData_finish _

theorem returnsData_runGetRgb : ReturnsData (runGetRgb args) := by
  refine .bind fun _ => .bind fun m => ?_
  exact returnsData_ite trivial (returnsData_ite (returnsData_finish _) trivial)

/-- Three single indices select a number, anything else a matrix. -/
theorem returnsData_subMatOf {mat y : Value} {x? channel? : Option Value} :
    ReturnsData (subMatOf mat y x? channel?) := by
  refine .bind fun m => .bind fun y => .bind fun x => .bind fun channel => ?_
  unfold partOf
  split
  · split <;> trivial
  · exact returnsData_finish _

/-- With one to three selectors the part is one of those. -/
theorem returnsData_runSubMat : ReturnsData (runSubMat args) := by
  unfold runSubMat
  split
  · exact returnsData_subMatOf
  · exact returnsData_subMatOf
  · exact returnsData_subMatOf
  · trivial

/-- No function of the library returns nothing, a truth value, a range or a reference. -/
theorem returnsData_run (f : Builtin) (args : List Value) : ReturnsData (f.run args) := by
  cases f with
  | abs => exact returnsData_runAbs
  | clamp => exact returnsData_runClamp
  | min => exact returnsData_runExtreme
  | max => exact returnsData_runExtreme
  | normalizeTo => exact returnsData_runNormalizeTo
  | getChannelCount => exact returnsData_runGetChannelCount
  | getChannel => exact returnsData_runGetChannel
  | replaceChannel => exact returnsData_runReplaceChannel
  | combineChannels => exact returnsData_runCombineChannels
  | rgbReplace => exact returnsData_runRgbReplace
  | alphaReplace => exact returnsData_runAlphaReplace
  | getRgb => exact returnsData_runGetRgb
  | toImage => exact returnsData_runToImage
  | toMatrix => exact returnsData_runToMatrix
  | subMat => exact returnsData_runSubMat

/-- A call without a fault among its arguments has the value of the body. -/
theorem invoke_of_run (h : ∀ v ∈ args, v.isError = false) {v : Value} (hrun : f.run args = .ok v) :
    f.invoke args = v := by
  unfold invoke
  simp only [firstFault?_eq_none.mpr h, hrun]

theorem invoke_of_fault (h : ∀ v ∈ args, v.isError = false) {fault : Fault}
    (hrun : f.run args = .error fault) : f.invoke args = .error fault := by
  unfold invoke
  simp only [firstFault?_eq_none.mpr h, hrun]

/-- A call is a number, a matrix or a fault. -/
theorem invoke_isData (f : Builtin) (args : List Value) :
    (f.invoke args).IsData ∨ ∃ fault, f.invoke args = .error fault := by
  unfold invoke
  split
  · exact .inr ⟨_, rfl⟩
  · have hrun := f.returnsData_run args
    cases hresult : f.run args with
    | ok v =>
      rw [hresult] at hrun
      exact .inl hrun
    | error fault => exact .inr ⟨fault, rfl⟩

end Builtin
end PixelCalc
