import PixelCalc.Proofs.Builtin.OneLine
import PixelCalc.Proofs.Evaluation.MatrixInvariant

/-!
# Evaluation stays on one line

Values quote names of the source and values of the environment. If these are one line, so are all
values that come up in an evaluation, all that it returns and all that it leaves behind.

- `Environment.OneLine`: the invariant. Functions of one's own may return any text, so there is none.
- `Environment.OneLine.eval`: evaluations of trees keep it.
- `Environment.OneLine.evaluate`, `Environment.OneLine.evaluateEach`: sources keep it.
-/

namespace PixelCalc

/-- The values of an environment are one line, and it has no functions of its own. -/
structure Environment.OneLine (env : Environment) : Prop where
  values : ∀ name v, env.find? name = some v → v.OneLine
  functions : ∀ name, env.functions.find? name = none

variable {env : Environment} {n source : String}

/-! ### Single steps -/

/-- What a name stands for: the bound value, or an error that quotes the name. -/
theorem Environment.OneLine.value (h : env.OneLine) (hn : Text.OneLine n.toList) :
    (env.value n).OneLine := by
  unfold Environment.value
  cases hfind : env.find? n with
  | none => exact Value.oneLine_error (List.forall_mem_singleton.mpr hn)
  | some v => exact h.values n v hfind

/-- Binding a one-line value keeps the environment so. -/
theorem Environment.OneLine.bind (h : env.OneLine) (n : String) {v : Value} (hv : v.OneLine) :
    (env.bind n v).OneLine := by
  refine ⟨fun name w hw => ?_, h.functions⟩
  rcases Environment.find?_bind_cases hw with ⟨-, rfl⟩ | hw
  · exact hv
  · exact h.values name w hw

/-- An operation binds at most its right operand. -/
theorem Environment.OneLine.assigned (h : env.OneLine) (op : Operator) (left : Value)
    {right : Value} (hr : right.OneLine) : (env.assigned op left right).OneLine := by
  unfold Environment.assigned
  split
  · exact h
  · exact h.bind _ hr
  · exact h

/-- A call speaks on one line: no other functions are registered, and an unknown one is quoted by
its name. -/
theorem Environment.OneLine.call (h : env.OneLine) (hn : Text.OneLine n.toList)
    {args : List Value} (hargs : ∀ v ∈ args, v.OneLine) : (env.call n args).OneLine := by
  unfold Environment.call Environment.function?
  cases Builtin.ofName? n with
  | some f => exact f.oneLine_invoke hargs
  | none =>
    rw [h.functions n]
    exact Value.oneLine_error (List.forall_mem_singleton.mpr hn)

/-- Of what stands between brackets a fault quotes at most an operator or a point. -/
theorem Malformed.quiet {e : Expr} {fault : Fault} (h : Malformed e fault) : fault.Quiet := by
  cases h with
  | operator op => exact List.forall_mem_singleton.mpr op.oneLine_symbol
  | dot => exact List.forall_mem_singleton.mpr Item.oneLine_dot
  | empty | several => exact Fault.quiet_of_quoted rfl

/-! ### Evaluations -/

/-- The evaluation of a tree with a text of one line keeps values on one line. -/
theorem Environment.OneLine.eval (h : env.OneLine) (e : Expr) (he : Text.OneLine e.text.toList) :
    Keeps Environment.OneLine Value.OneLine env e := by
  induction e using Expr.inductEvaluated generalizing env with
  | number x => exact ⟨trivial, h, List.forall_mem_singleton.mpr trivial⟩
  | nothing => exact ⟨trivial, h, List.forall_mem_singleton.mpr trivial⟩
  | name n => exact ⟨h.value he, h, List.forall_mem_singleton.mpr (h.value he)⟩
  | target n =>
    have hn : (Value.reference n).OneLine := Expr.oneLine_target_iff.mp he
    exact ⟨hn, h, List.forall_mem_singleton.mpr hn⟩
  | malformed e fault hmalformed =>
    have heval := eval_malformed hmalformed env
    have hvalue : (e.eval env).1.OneLine := heval ▸ Value.oneLine_error hmalformed.quiet
    refine ⟨hvalue, heval ▸ h, ?_⟩
    rw [trace_malformed hmalformed]
    exact List.forall_mem_singleton.mpr hvalue
  | brackets e ih =>
    have hout := ih h (Expr.oneLine_group_iff.mp he).1.head
    exact ⟨hout.value, hout.environment, forall_visits_last hout.value hout.visits⟩
  | operation op left right ihl ihr =>
    obtain ⟨hleft, hright⟩ := Expr.oneLine_operation_iff.mp he
    have hl := ihl h hleft
    have hr := ihr hl.environment hright
    have hvalue := op.oneLine_compute hl.value hr.value
    refine ⟨hvalue, hr.environment.assigned op _ hr.value, ?_⟩
    exact forall_visits_last hvalue (List.forall_mem_append.mpr ⟨hl.visits, hr.visits⟩)
  | call n arguments ih =>
    obtain ⟨hn, harguments⟩ := Expr.oneLine_call_iff.mp he
    obtain ⟨hargs, hafter, hvisits⟩ :=
      evalAll_keeps (fun a ha _ henv => ih a ha henv (harguments a ha)) h
    have hvalue := hafter.call hn hargs
    exact ⟨hvalue, hafter, forall_visits_last hvalue hvisits⟩

/-- Whatever comes up in the evaluation of a source of one line is one line. -/
theorem Environment.OneLine.visits (h : env.OneLine) (hsource : Text.OneLine source.toList)
    {e : Expr} (he : parse source = .ok e) : ∀ visit ∈ e.trace env, visit.value.OneLine :=
  (h.eval e ((yields_parse hsource).of_ok he)).visits

/-- A source on one line leaves a one-line value and a one-line environment. A syntax error quotes
items of the source, and there the assumption on the source comes in. -/
theorem Environment.OneLine.evaluate (h : env.OneLine) (hsource : Text.OneLine source.toList) :
    (evaluate env source).1.OneLine ∧ (evaluate env source).2.OneLine := by
  have hparse := yields_parse hsource
  unfold PixelCalc.evaluate
  split
  · rename_i e he
    have hout := h.eval e (hparse.of_ok he)
    exact ⟨hout.value, hout.environment⟩
  · rename_i e he
    exact ⟨Value.oneLine_error (hparse.of_error he), h⟩

/-- So does a sequence of sources; by induction on it. -/
theorem Environment.OneLine.evaluateEach (h : env.OneLine) {sources : List String}
    (hsources : ∀ source ∈ sources, Text.OneLine source.toList) :
    (∀ v ∈ (evaluateEach env sources).1, v.OneLine) ∧ (evaluateEach env sources).2.OneLine :=
  evaluateEach_keeps_of_mem (fun henv source hmem => henv.evaluate (hsources source hmem)) h

end PixelCalc
