import PixelCalc.Proofs.Evaluation.Internal
import PixelCalc.Proofs.Evaluation.MatrixInvariant
import PixelCalc.Proofs.Syntax.Placement

/-!
# Values stay plain

What operators keep to themselves does not get out: since targets and missing operands stand only
beside their operators, sources have plain values or are faults, and variables are bound to plain
values.

- `Value.IsPlain`: a number, a valid matrix, a truth value or a range.
- `Value.IsResult`: a plain value or a fault.
- `Environment.Plain`: all variables are plain, and no function is registered.
- `eval_plain`: one expression whose targets and missing operands stand in their places.
- `values_stay_plain`: any sources, one after the other.
-/

namespace PixelCalc

namespace Value

/-- A number, a valid matrix, a truth value or a range. -/
def IsPlain : Value → Prop
  | number _ => True
  | matrix m => m.Valid
  | boolean _ => True
  | range _ => True
  | _ => False

/-- What a source may have for a value. -/
def IsResult (v : Value) : Prop :=
  v.IsPlain ∨ v.isError = true

variable {v : Value}

/-- Besides plain values and faults there are only invalid matrices and what operators keep to
themselves. -/
theorem isResult_iff : v.IsResult ↔ v.Valid ∧ ¬ v.Internal := by
  cases v <;> simp [IsResult, IsPlain, isError, Valid, Internal]

theorem IsResult.valid (h : v.IsResult) : v.Valid :=
  (isResult_iff.mp h).1

theorem IsResult.not_internal (h : v.IsResult) : ¬ v.Internal :=
  (isResult_iff.mp h).2

theorem isResult_error (fault : Fault) : (error fault).IsResult :=
  .inr rfl

end Value

/-- All variables are plain, and no function is registered. -/
structure Environment.Plain (env : Environment) : Prop where
  values : ∀ name v, env.find? name = some v → v.IsPlain
  functions : ∀ name, env.functions.find? name = none

variable {env : Environment}

/-! ### Single steps -/

theorem Environment.Plain.value (h : env.Plain) (n : String) : (env.value n).IsResult := by
  unfold Environment.value
  cases hn : env.find? n with
  | none => exact Value.isResult_error _
  | some v => exact .inl (h.values n v hn)

theorem Environment.Plain.bind (h : env.Plain) (n : String) {v : Value} (hv : v.IsPlain) :
    (env.bind n v).Plain := by
  refine ⟨fun name w hw => ?_, h.functions⟩
  rcases Environment.find?_bind_cases hw with ⟨-, rfl⟩ | hw
  · exact hv
  · exact h.values name w hw

/-- An assignment binds the value on its right unless it is a fault. -/
theorem Environment.Plain.assigned (h : env.Plain) (op : Operator) (left : Value) {right : Value}
    (hright : op = .assign → right.IsResult) : (env.assigned op left right).Plain := by
  unfold Environment.assigned
  split
  · exact h
  · rename_i hfault
    rcases hright rfl with hplain | herror
    · exact h.bind _ hplain
    · cases right with
      | error fault => exact absurd rfl (hfault fault)
      | _ => cases herror
  · exact h

theorem Environment.Plain.call (h : env.Plain) (n : String) {args : List Value}
    (hargs : ∀ v ∈ args, v.IsResult) : (env.call n args).IsResult := by
  unfold Environment.call Environment.function?
  cases hn : Builtin.ofName? n with
  | some f =>
    have hvalid := f.valid_invoke fun v hv => (hargs v hv).valid
    exact Value.isResult_iff.mpr ⟨hvalid, f.invoke_not_internal args⟩
  | none =>
    rw [h.functions n]
    exact Value.isResult_error _

/-- Only an assignment could pass on a value that is no result. -/
theorem Operator.isResult_compute (op : Operator) {left right : Value} (hl : left.Valid)
    (hr : right.Valid) (hright : op = .assign → right.IsResult) :
    (op.compute left right).IsResult := by
  refine Value.isResult_iff.mpr ⟨op.valid_compute hl hr, fun hinternal => ?_⟩
  obtain ⟨hassign, hvalue⟩ := op.compute_internal hinternal
  rw [hvalue] at hinternal
  exact (hright hassign).not_internal hinternal

/-! ### Evaluations -/

/-- The value of an expression is a result, and the environment after it is plain. -/
def EvaluatesPlain (env : Environment) (e : Expr) : Prop :=
  (e.eval env).1.IsResult ∧ (e.eval env).2.Plain

theorem evalAll_plain {arguments : List Expr}
    (h : ∀ a ∈ arguments, ∀ env : Environment, env.Plain → EvaluatesPlain env a)
    (henv : env.Plain) :
    (∀ v ∈ (evalAll env arguments).1, v.IsResult) ∧ (evalAll env arguments).2.Plain := by
  induction arguments generalizing env with
  | nil => exact ⟨fun _ hv => absurd hv List.not_mem_nil, henv⟩
  | cons a rest ih =>
    obtain ⟨ha, hrest⟩ := List.forall_mem_cons.mp h
    obtain ⟨hvalue, hafter⟩ := ha env henv
    obtain ⟨hvalues, hafter⟩ := ih hrest hafter
    exact ⟨List.forall_mem_cons.mpr ⟨hvalue, hvalues⟩, hafter⟩

/-- On the left of an operator its own operands are values too, and valid ones. -/
theorem PlacedLeft.eval {op : Operator} {left : Expr} (h : PlacedLeft op left) (henv : env.Plain)
    (ih : Placed left → EvaluatesPlain env left) :
    (left.eval env).1.Valid ∧ (left.eval env).2.Plain := by
  cases h with
  | operand h =>
    obtain ⟨hvalue, hafter⟩ := ih h
    exact ⟨hvalue.valid, hafter⟩
  | target | power | range => exact ⟨trivial, henv⟩

/-- So they are on the right, but not on that of `=`. -/
theorem PlacedRight.eval {op : Operator} {right : Expr} (h : PlacedRight op right)
    (henv : env.Plain) (ih : Placed right → EvaluatesPlain env right) :
    (right.eval env).1.Valid ∧ (op = .assign → (right.eval env).1.IsResult) ∧
      (right.eval env).2.Plain := by
  cases h with
  | operand h =>
    obtain ⟨hvalue, hafter⟩ := ih h
    exact ⟨hvalue.valid, fun _ => hvalue, hafter⟩
  | range => exact ⟨trivial, fun h => Operator.noConfusion h, henv⟩

/-- A placed tree evaluates to a result in a plain environment, which stays plain. -/
theorem eval_plain {e : Expr} (he : Placed e) (henv : env.Plain) : EvaluatesPlain env e := by
  induction e using Expr.inductEvaluated generalizing env with
  | number x => exact ⟨.inl trivial, henv⟩
  -- the placeholder and the target occur only below an operator, where `Placed` has them
  | nothing => cases he
  | name n => exact ⟨henv.value n, henv⟩
  | target n => cases he
  | malformed e fault hmalformed =>
    unfold EvaluatesPlain
    rw [eval_malformed hmalformed]
    exact ⟨Value.isResult_error fault, henv⟩
  | brackets e ih =>
    cases he with
    | group hsegments => exact ih (hsegments _ List.mem_cons_self e List.mem_cons_self) henv
  | operation op left right ihl ihr =>
    cases he with
    | operation hl hr =>
      obtain ⟨hleft, hafter⟩ := hl.eval henv fun h => ihl h henv
      obtain ⟨hvalid, hright, hafter⟩ := hr.eval hafter fun h => ihr h hafter
      exact ⟨op.isResult_compute hleft hvalid hright, hafter.assigned op _ hright⟩
  | call n arguments ih =>
    cases he with
    | call harguments =>
      obtain ⟨hargs, hafter⟩ :=
        evalAll_plain (fun a ha _ henv => ih a ha (harguments a ha) henv) henv
      exact ⟨hafter.call n hargs, hafter⟩

theorem evaluate_plain (henv : env.Plain) (source : String) :
    (evaluate env source).1.IsResult ∧ (evaluate env source).2.Plain := by
  unfold evaluate
  split
  · rename_i e hparse
    exact eval_plain (parse_placed hparse) henv
  · exact ⟨Value.isResult_error _, henv⟩

/-- **Values stay plain.** Where all variables are plain and no function is registered, whatever
sources are evaluated one after the other, their values are plain or faults and the variables stay
plain; for in the tree of a source a target stands only on the left of `=`, and a missing operand
only on the left of a power or a range or on the right of a range. -/
theorem values_stay_plain (env : Environment) (henv : env.Plain) :
    (∀ sources, (∀ v ∈ (evaluateEach env sources).1, v.IsPlain ∨ v.isError = true) ∧
      ∀ name v, (evaluateEach env sources).2.find? name = some v → v.IsPlain) ∧
    ∀ source e, parse source = .ok e → Placed e := by
  refine ⟨fun sources => ?_, fun _ _ hparse => parse_placed hparse⟩
  obtain ⟨hvalues, hafter⟩ := evaluateEach_keeps evaluate_plain henv sources
  exact ⟨hvalues, hafter.values⟩

/-- Open ranges and prefix powers that are bound and used again. -/
theorem values_stay_plain_open :
    let env := Environment.empty.bind "x" (.range ⟨.unbounded, .unbounded⟩)
    env.Plain ∧
      (∀ v ∈ (evaluateEach env ["y = ..", "z = ^2", "y = (= z)", "y ^ x"]).1,
        v.IsPlain ∨ v.isError = true) ∧
      ∀ name v, (evaluateEach env ["y = ..", "z = ^2", "y = (= z)", "y ^ x"]).2.find? name =
        some v → v.IsPlain := by
  intro env
  have hempty : Environment.empty.Plain := ⟨fun _ _ h => (by cases h), fun _ => rfl⟩
  have henv : env.Plain := hempty.bind "x" trivial
  exact ⟨henv, (values_stay_plain env henv).1 _⟩

end PixelCalc
