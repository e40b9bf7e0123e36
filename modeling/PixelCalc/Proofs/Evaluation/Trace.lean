import PixelCalc.Evaluation

/-!
# The course of an evaluation

An evaluation visits the subexpressions of an expression from left to right, operands before the
operation and arguments before the call, each in the environment that the visits before it have
left. Brackets that hold no single expression are faults and hide what they hold.

- `Expr.inductEvaluated`: induction over the subexpressions that are evaluated.
- `Expr.evaluated`: the subexpressions in the order in which they are evaluated.
- `Expr.trace`: the visits, each with the environment that it finds; `trace_evaluated` says that the
  environment has no influence on which subexpressions are visited.
- `Visit.write?`: the binding that a visit makes; `eval_environment` says that the bindings of all
  visits, made in order, are the effect of the evaluation.
-/

namespace PixelCalc

/-! ### Subexpressions -/

/-- Brackets that do not hold a single expression, and their fault. -/
inductive Malformed : Expr → Fault → Prop
  | empty : Malformed (.group [] []) .emptyBracket
  | operator (op : Operator) : Malformed (.group [.operator op] []) (.notAValue (.operator op))
  | dot : Malformed (.group [.dot] []) (.notAValue .dot)
  | several {first : List Item} {more : List (List Item)} (h : more ≠ [] ∨ 1 < first.length) :
      Malformed (.group first more) .severalValues

mutual

/-- Induction over the subexpressions that are evaluated. -/
@[elab_as_elim]
theorem Expr.inductEvaluated {motive : Expr → Prop} (number : ∀ x, motive (.number x))
    (nothing : motive .nothing) (name : ∀ n, motive (.name n)) (target : ∀ n, motive (.target n))
    (malformed : ∀ e fault, Malformed e fault → motive e)
    (brackets : ∀ e, motive e → motive (.group [.expr e] []))
    (operation : ∀ op left right, motive left → motive right →
      motive (.operation op left right))
    (call : ∀ n arguments, (∀ a ∈ arguments, motive a) → motive (.call n arguments)) :
    ∀ e, motive e
  | .number x => number x
  | .nothing => nothing
  | .name n => name n
  | .target n => target n
  | .group [] [] => malformed _ _ .empty
  | .group [.expr e] [] =>
    brackets e (Expr.inductEvaluated number nothing name target malformed brackets operation call e)
  | .group [.operator op] [] => malformed _ _ (.operator op)
  | .group [.dot] [] => malformed _ _ .dot
  | .group _ (_ :: _) => malformed _ _ (.several (.inl (List.cons_ne_nil _ _)))
  | .group (_ :: _ :: _) [] => malformed _ _ (.several (.inr (Nat.succ_lt_succ (Nat.succ_pos _))))
  | .operation op left right =>
    operation op left right
      (Expr.inductEvaluated number nothing name target malformed brackets operation call left)
      (Expr.inductEvaluated number nothing name target malformed brackets operation call right)
  | .call n arguments =>
    call n arguments
      (inductArguments number nothing name target malformed brackets operation call arguments)

/-- The same for every argument of a call. -/
theorem inductArguments {motive : Expr → Prop} (number : ∀ x, motive (.number x))
    (nothing : motive .nothing) (name : ∀ n, motive (.name n)) (target : ∀ n, motive (.target n))
    (malformed : ∀ e fault, Malformed e fault → motive e)
    (brackets : ∀ e, motive e → motive (.group [.expr e] []))
    (operation : ∀ op left right, motive left → motive right →
      motive (.operation op left right))
    (call : ∀ n arguments, (∀ a ∈ arguments, motive a) → motive (.call n arguments)) :
    ∀ arguments : List Expr, ∀ a ∈ arguments, motive a
  | [], _, h => absurd h List.not_mem_nil
  | e :: rest, _, h =>
    List.forall_mem_cons.mpr
      ⟨Expr.inductEvaluated number nothing name target malformed brackets operation call e,
        inductArguments number nothing name target malformed brackets operation call rest⟩ _ h

end

mutual

/-- The subexpressions that are evaluated, in order, the expression itself last. -/
def Expr.evaluated : Expr → List Expr
  | .group [item] [] => item.evaluated ++ [.group [item] []]
  | .operation op left right => left.evaluated ++ right.evaluated ++ [.operation op left right]
  | .call n arguments => evaluatedAll arguments ++ [.call n arguments]
  | e => [e]

/-- The subexpressions of the only item between brackets. -/
def Item.evaluated : Item → List Expr
  | .expr e => e.evaluated
  | _ => []

/-- The subexpressions of arguments. -/
def evaluatedAll : List Expr → List Expr
  | [] => []
  | e :: rest => e.evaluated ++ evaluatedAll rest

end

/-! ### Visits -/

/-- An expression at the moment its evaluation begins. -/
structure Visit where
  environment : Environment
  expr : Expr

/-- The value that the expression has there. -/
def Visit.value (v : Visit) : Value :=
  (v.expr.eval v.environment).1

mutual

/-- The visits of an evaluation, in the order in which they end. -/
def Expr.trace (env : Environment) : Expr → List Visit
  | .group [item] [] => item.trace env ++ [⟨env, .group [item] []⟩]
  | .operation op left right =>
    left.trace env ++ right.trace (left.eval env).2 ++ [⟨env, .operation op left right⟩]
  | .call n arguments => traceAll env arguments ++ [⟨env, .call n arguments⟩]
  | e => [⟨env, e⟩]

/-- The visits of the only item between brackets. -/
def Item.trace (env : Environment) : Item → List Visit
  | .expr e => e.trace env
  | _ => []

/-- The visits of arguments. -/
def traceAll (env : Environment) : List Expr → List Visit
  | [] => []
  | e :: rest => e.trace env ++ traceAll (e.eval env).2 rest

end

variable {env : Environment} {e : Expr} {fault : Fault}

/-- Of brackets with several values, nothing is evaluated. -/
theorem several_cases {first : List Item} {more : List (List Item)}
    (h : more ≠ [] ∨ 1 < first.length) (item : Item) :
    Expr.group first more ≠ .group [item] [] := by
  rintro ⟨⟩
  rcases h with h | h
  · exact h rfl
  · exact absurd h (Nat.lt_irrefl 1)

theorem eval_malformed (h : Malformed e fault) (env : Environment) :
    e.eval env = (.error fault, env) := by
  cases h with
  | several h =>
    -- the equation for such brackets asks that they are neither empty nor hold a single item
    rw [Expr.eval]
    · rintro rfl rfl
      simp at h
    · rintro item rfl rfl
      exact several_cases h item rfl
  | _ => rfl

theorem trace_malformed (h : Malformed e fault) (env : Environment) :
    e.trace env = [⟨env, e⟩] := by
  cases h with
  | several h =>
    rw [Expr.trace]
    · exact several_cases h
    · nofun
    · nofun
  | _ => rfl

theorem evaluated_malformed (h : Malformed e fault) : e.evaluated = [e] := by
  cases h with
  | several h =>
    rw [Expr.evaluated]
    · exact several_cases h
    · nofun
    · nofun
  | _ => rfl

/-! ### The course does not depend on the values -/

theorem traceAll_evaluated {arguments : List Expr}
    (h : ∀ a ∈ arguments, ∀ env, (a.trace env).map Visit.expr = a.evaluated) (env : Environment) :
    (traceAll env arguments).map Visit.expr = evaluatedAll arguments := by
  induction arguments generalizing env with
  | nil => rfl
  | cons a rest ih =>
    rw [traceAll, evaluatedAll, List.map_append, h a List.mem_cons_self,
      ih fun b hb => h b (.tail _ hb)]

/-- Every subexpression that is not hidden is visited, in every environment. -/
theorem trace_evaluated (e : Expr) (env : Environment) :
    (e.trace env).map Visit.expr = e.evaluated := by
  induction e using Expr.inductEvaluated generalizing env with
  | number | nothing | name | target => rfl
  | malformed e fault h =>
    rw [trace_malformed h, evaluated_malformed h]
    rfl
  | brackets e ih =>
    show ((e.trace env) ++ [_]).map Visit.expr = e.evaluated ++ [_]
    rw [List.map_append, ih]
    rfl
  | operation op left right ihl ihr =>
    rw [Expr.trace, Expr.evaluated, List.map_append, List.map_append, ihl, ihr]
    rfl
  | call n arguments ih =>
    rw [Expr.trace, Expr.evaluated, List.map_append, traceAll_evaluated ih]
    rfl

/-! ### Writes -/

/-- The binding that an assignment makes of its operands. -/
def written (op : Operator) (left right : Value) : Option (String × Value) :=
  match op, left, right with
  | .assign, .reference _, .error _ => none
  | .assign, .reference name, v => some (name, v)
  | _, _, _ => none

/-- The binding that a visit makes, if it is that of an assignment. -/
def Visit.write? (v : Visit) : Option (String × Value) :=
  match v.expr with
  | .operation op left right =>
    let l := left.eval v.environment
    written op l.1 (right.eval l.2).1
  | _ => none

/-- Makes bindings in order. -/
def Environment.bindAll (env : Environment) (writes : List (String × Value)) : Environment :=
  writes.foldl (fun env w => env.bind w.1 w.2) env

/-- The bindings that an evaluation makes, in order. -/
def Expr.writes (env : Environment) (e : Expr) : List (String × Value) :=
  (e.trace env).filterMap Visit.write?

theorem bindAll_append (env : Environment) (ws ws' : List (String × Value)) :
    env.bindAll (ws ++ ws') = (env.bindAll ws).bindAll ws' :=
  List.foldl_append

/-- An assignment that is no fault binds its name, every other operation has no effect. -/
theorem assigned_eq (env : Environment) (op : Operator) (left right : Value) :
    env.assigned op left right = env.bindAll (written op left right).toList := by
  cases op with
  | assign =>
    cases left with
    | reference n => cases right <;> rfl
    | _ => rfl
  | _ => rfl

theorem traceAll_environment {arguments : List Expr}
    (h : ∀ a ∈ arguments, ∀ env, (a.eval env).2 = env.bindAll (a.writes env))
    (env : Environment) :
    (evalAll env arguments).2 =
      env.bindAll ((traceAll env arguments).filterMap Visit.write?) := by
  induction arguments generalizing env with
  | nil => rfl
  | cons a rest ih =>
    rw [traceAll, List.filterMap_append, bindAll_append]
    show (evalAll (a.eval env).2 rest).2 = (env.bindAll (a.writes env)).bindAll _
    rw [← h a List.mem_cons_self]
    exact ih (fun b hb => h b (.tail _ hb)) _

/-- The effect of an evaluation is that of the bindings of its visits, made in order. -/
theorem eval_environment (e : Expr) (env : Environment) :
    (e.eval env).2 = env.bindAll (e.writes env) := by
  induction e using Expr.inductEvaluated generalizing env with
  | number | nothing | name | target => rfl
  | malformed e fault h =>
    rw [eval_malformed h, Expr.writes, trace_malformed h]
    cases h <;> rfl
  | brackets e ih =>
    show (e.eval env).2 = env.bindAll ((e.trace env ++ [_]).filterMap Visit.write?)
    rw [List.filterMap_append, bindAll_append]
    exact ih env
  | operation op left right ihl ihr =>
    -- the right operand is visited where the bindings of the left one have been made
    rw [Expr.writes, Expr.trace, List.filterMap_append, List.filterMap_append, bindAll_append,
      bindAll_append]
    show (right.eval (left.eval env).2).2.assigned op _ _ =
      ((env.bindAll (left.writes env)).bindAll (right.writes (left.eval env).2)).bindAll _
    rw [← ihl, ← ihr, assigned_eq]
    rfl
  | call n arguments ih =>
    rw [Expr.writes, Expr.trace, List.filterMap_append, bindAll_append,
      ← traceAll_environment ih]
    rfl

end PixelCalc
