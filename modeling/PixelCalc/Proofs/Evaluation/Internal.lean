import PixelCalc.Proofs.Builtin.Results
import PixelCalc.Value.Operation

/-!
# Values that only operators see

The missing operand of a prefix and the target of an assignment are values too, but none that an
operation or a call makes: at most an assignment passes on the one that it is given.

- `Value.Internal`: the two kinds of value.
- `Operator.compute_internal`: operations do not make them.
- `Builtin.invoke_not_internal`: built-in functions do not return them.
-/

namespace PixelCalc

/-- The value stands for a missing operand or for the target of an assignment. -/
def Value.Internal : Value → Prop
  | nothing => True
  | reference _ => True
  | _ => False

namespace Operation

variable {op : Operator} {left right : Value}

theorem ofConstruction_not_internal (x : Except Assertion Matrix) :
    ¬ (ofConstruction x).Internal := by
  cases x <;> exact id

theorem arithmetic_not_internal {f : Float → Float → Float} :
    ¬ (arithmetic op f left right).Internal := by
  unfold arithmetic
  split
  · exact id
  · exact ofConstruction_not_internal _
  · exact ofConstruction_not_internal _
  · split
    · exact ofConstruction_not_internal _
    · exact id
  all_goals exact id

theorem power_not_internal : ¬ (power left right).Internal := by
  unfold power
  split
  · exact id
  · exact ofConstruction_not_internal _
  · split <;> exact id
  all_goals exact id

theorem range_not_internal : ¬ (range left right).Internal := by
  unfold range
  split
  · exact id
  · split <;> exact id

theorem comparison_not_internal {test : Float → Float → Bool} :
    ¬ (comparison op test left right).Internal := by
  unfold comparison
  split
  · exact id
  · exact id
  · split
    · exact ofConstruction_not_internal _
    · exact id
  all_goals exact id

end Operation

variable {op : Operator} {left right : Value}

open Operation in
/-- Only an assignment may have such a value, and then that of its right operand. -/
theorem Operator.onValues_internal (h : (op.onValues left right).Internal) :
    op = .assign ∧ op.onValues left right = right := by
  cases op with
  | plus | minus | times | divide | remainder => exact absurd h arithmetic_not_internal
  | power => exact absurd h power_not_internal
  | range => exact absurd h range_not_internal
  | equal | notEqual | greater | greaterEqual | less | lessEqual =>
    exact absurd h comparison_not_internal
  | assign =>
    refine ⟨rfl, ?_⟩
    change (assignment left right).Internal at h
    show assignment left right = right
    unfold assignment at h ⊢
    split at h
    · rfl
    · exact h.elim

/-- Only an assignment hands on an internal value, and it is the one it was given. -/
theorem Operator.compute_internal (h : (op.compute left right).Internal) :
    op = .assign ∧ op.compute left right = right := by
  unfold compute at h ⊢
  split at h
  · exact h.elim
  · exact h.elim
  · exact op.onValues_internal h

/-- No built-in returns an internal value. -/
theorem Builtin.invoke_not_internal (f : Builtin) (args : List Value) :
    ¬ (f.invoke args).Internal := by
  intro h
  rcases f.invoke_isData args with hdata | ⟨fault, hfault⟩
  · cases hresult : f.invoke args <;> simp_all [Value.IsData, Value.Internal]
  · rw [hfault] at h
    exact h

end PixelCalc
