import PixelCalc.Proofs.Evaluation.Trace

/-!
# The first fault of an evaluation

Operators and built-in functions look for faults among their operands before anything else, and hand
on the first one. So a fault, once it has come up, is the result of the whole evaluation. It does
not end the evaluation: what stands to its right is still visited, and assignments there still bind.

- `firstFault?_trace`: the fault of an expression is the first one among its visits.
- `first_fault_wins`: the same over all visits, with what becomes of the visits after it.
-/

namespace PixelCalc

open Builtin (firstFault?)

/-! ### The first fault among values -/

theorem firstFault?_cons (v : Value) (vs : List Value) :
    firstFault? (v :: vs) = (firstFault? [v]).or (firstFault? vs) := by
  cases v <;> rfl

theorem firstFault?_append (vs ws : List Value) :
    firstFault? (vs ++ ws) = (firstFault? vs).or (firstFault? ws) := by
  induction vs with
  | nil => rfl
  | cons v vs ih =>
    rw [List.cons_append, firstFault?_cons, firstFault?_cons v vs, ih, Option.or_assoc]

theorem firstFault?_singleton_eq_some {v : Value} {fault : Fault} :
    firstFault? [v] = some fault ↔ v = .error fault := by
  cases v <;> simp [firstFault?]

/-- The first fault comes after values that are none. -/
theorem firstFault?_split {vs ws : List Value} {fault : Fault}
    (hvs : ∀ v ∈ vs, v.isError = false) : firstFault? (vs ++ .error fault :: ws) = some fault := by
  rw [firstFault?_append, Builtin.firstFault?_eq_none.mpr hvs]
  rfl

/-! ### Operations and calls hand on faults -/

/-- An operation has the fault of the left operand, or else that of the right one, or else one of
its own. -/
theorem firstFault?_compute (op : Operator) (left right : Value) :
    ((firstFault? [left]).or (firstFault? [right])).or (firstFault? [op.compute left right]) =
      firstFault? [op.compute left right] := by
  cases left with
  | error fault =>
    rw [op.compute_error_left]
    rfl
  | _ =>
    cases right with
    | error fault => rfl
    | _ => rfl

/-- A call of a built-in function has the first fault among the arguments, or else one of its
own. -/
theorem firstFault?_call {env : Environment} {n : String} {args : List Value}
    (hn : Builtin.ofName? n ≠ none) :
    (firstFault? args).or (firstFault? [env.call n args]) = firstFault? [env.call n args] := by
  obtain ⟨f, hf⟩ := Option.ne_none_iff_exists'.mp hn
  have hcall : env.call n args = f.invoke args := by
    rw [Environment.call, Environment.function?, hf]
  rw [hcall]
  cases hargs : firstFault? args with
  | none => rfl
  | some fault =>
    rw [Builtin.invoke, hargs]
    rfl

/-! ### Faults along an evaluation -/

/-- Every call that is evaluated is one of a built-in function. -/
def CallsBuiltins (visited : List Expr) : Prop :=
  ∀ n arguments, .call n arguments ∈ visited → Builtin.ofName? n ≠ none

theorem CallsBuiltins.append {es es' : List Expr} (h : CallsBuiltins (es ++ es')) :
    CallsBuiltins es ∧ CallsBuiltins es' :=
  ⟨fun n arguments hmem => h n arguments (List.mem_append_left _ hmem),
    fun n arguments hmem => h n arguments (List.mem_append_right _ hmem)⟩

/-- The first fault among the visits of the arguments is the first among their values. -/
theorem firstFault?_traceAll {arguments : List Expr}
    (h : ∀ a ∈ arguments, CallsBuiltins a.evaluated → ∀ env,
      firstFault? ((a.trace env).map Visit.value) = firstFault? [(a.eval env).1])
    (hcalls : CallsBuiltins (evaluatedAll arguments)) (env : Environment) :
    firstFault? ((traceAll env arguments).map Visit.value) =
      firstFault? (evalAll env arguments).1 := by
  induction arguments generalizing env with
  | nil => rfl
  | cons a rest ih =>
    obtain ⟨ha, hrest⟩ := hcalls.append
    rw [traceAll, List.map_append, firstFault?_append, h a List.mem_cons_self ha,
      ih (fun b hb => h b (.tail _ hb)) hrest]
    exact (firstFault?_cons _ _).symm

/-- The fault of an expression is the first one among its visits. -/
theorem firstFault?_trace (e : Expr) (hcalls : CallsBuiltins e.evaluated) (env : Environment) :
    firstFault? ((e.trace env).map Visit.value) = firstFault? [(e.eval env).1] := by
  induction e using Expr.inductEvaluated generalizing env with
  | number | nothing | name | target => rfl
  | malformed e fault h =>
    rw [trace_malformed h]
    rfl
  | brackets e ih =>
    show firstFault? ((e.trace env ++ [_]).map Visit.value) = firstFault? [(e.eval env).1]
    rw [List.map_append, firstFault?_append, ih hcalls.append.1]
    exact Option.or_self
  | operation op left right ihl ihr =>
    obtain ⟨hoperands, -⟩ := hcalls.append
    obtain ⟨hl, hr⟩ := hoperands.append
    rw [Expr.trace, List.map_append, List.map_append, firstFault?_append, firstFault?_append,
      ihl hl, ihr hr]
    exact firstFault?_compute op _ _
  | call n arguments ih =>
    obtain ⟨harguments, hn⟩ := hcalls.append
    rw [Expr.trace, List.map_append, firstFault?_append, firstFault?_traceAll ih harguments]
    exact firstFault?_call (hn n arguments List.mem_cons_self)

/-- No fault comes up without being the result, and no result is a fault that did not come up. -/
theorem isError_eval (e : Expr) (hcalls : CallsBuiltins e.evaluated) (env : Environment) :
    (e.eval env).1.isError = (e.trace env).any fun visit => visit.value.isError := by
  have hfirst := firstFault?_trace e hcalls env
  have hnone : (e.eval env).1.isError = false ↔
      ((e.trace env).any fun visit => visit.value.isError) = false := by
    rw [← List.forall_mem_singleton (p := fun v : Value => v.isError = false),
      ← Builtin.firstFault?_eq_none, ← hfirst, Builtin.firstFault?_eq_none]
    simp only [List.forall_mem_map, List.any_eq_false, Bool.not_eq_true]
  rw [Bool.eq_iff_iff, ← Decidable.not_iff_not, Bool.not_eq_true, Bool.not_eq_true]
  exact hnone

/-- An assignment to a name binds the name to the value of the assignment, unless that is a
fault. -/
theorem write?_assignment {visit : Visit} {n : String} {right : Expr}
    (hexpr : visit.expr = .operation .assign (.target n) right)
    (hvalue : visit.value.isError = false) : visit.write? = some (n, visit.value) := by
  obtain ⟨env, e⟩ := visit
  subst hexpr
  show written .assign (.reference n) (right.eval env).1 =
    some (n, Operator.assign.compute (.reference n) (right.eval env).1)
  change (Operator.assign.compute (.reference n) (right.eval env).1).isError = false at hvalue
  cases hright : (right.eval env).1 with
  | error fault =>
    rw [hright] at hvalue
    cases hvalue
  | _ => rfl

/-- **The first fault wins.** Where every call is one of a built-in function, an expression is a
fault exactly if one of the subexpressions visited is, and it is the first of these faults in the
order of evaluation. The visits after it take place all the same, and the bindings of all visits are
made in order. -/
theorem first_fault_wins (env : Environment) (e : Expr)
    (hcalls : ∀ n arguments, .call n arguments ∈ e.evaluated → Builtin.ofName? n ≠ none) :
    (∀ before visit after fault, e.trace env = before ++ visit :: after →
      (∀ earlier ∈ before, earlier.value.isError = false) → visit.value = .error fault →
      (e.eval env).1 = .error fault) ∧
    ((e.eval env).1.isError = true ↔ ∃ visit ∈ e.trace env, visit.value.isError = true) ∧
    (e.trace env).map Visit.expr = e.evaluated ∧
    (e.eval env).2 = env.bindAll (e.writes env) ∧
    (∀ visit ∈ e.trace env, ∀ n right, visit.expr = .operation .assign (.target n) right →
      visit.value.isError = false → visit.write? = some (n, visit.value)) := by
  refine ⟨?_, isError_eval e hcalls env ▸ List.any_eq_true, trace_evaluated e env,
    eval_environment e env, fun _ _ _ _ hexpr hvalue => write?_assignment hexpr hvalue⟩
  intro before visit after fault htrace hbefore hvisit
  -- nothing before the visit is a fault, so the first fault of all visits is that of this one
  have hfirst := firstFault?_trace e hcalls env
  rw [htrace, List.map_append, List.map_cons, hvisit, firstFault?_split] at hfirst
  · exact firstFault?_singleton_eq_some.mp hfirst.symm
  · rintro _ hv
    obtain ⟨earlier, hearlier, rfl⟩ := List.mem_map.mp hv
    exact hbefore earlier hearlier

/-- In `Abs(missing) + (y = 2)` the name that has no value is the fault, and `y` is bound. -/
theorem first_fault_wins_missing :
    let e : Expr := .operation .plus (.call "Abs" [.name "missing"])
      (.group [.expr (.operation .assign (.target "y") (.number 2))] [])
    (∀ n arguments, .call n arguments ∈ e.evaluated → Builtin.ofName? n ≠ none) ∧
      (e.eval .empty).1 = .error (.unknownValue "missing") ∧
      (e.eval .empty).2 = Environment.empty.bind "y" (.number 2) := by
  intro e
  have hcalls : ∀ n arguments, .call n arguments ∈ e.evaluated → Builtin.ofName? n ≠ none := by
    intro n arguments hmem
    simp [e, Expr.evaluated, Item.evaluated, evaluatedAll] at hmem
    rw [hmem.1]
    decide +kernel
  have hnone : ∀ earlier ∈ ([] : List Visit), earlier.value.isError = false :=
    fun _ h => absurd h List.not_mem_nil
  obtain ⟨hfirst, -, -, henv, -⟩ := first_fault_wins .empty e hcalls
  exact ⟨hcalls, hfirst [] ⟨.empty, .name "missing"⟩ _ _ rfl hnone rfl, henv.trans rfl⟩

end PixelCalc
