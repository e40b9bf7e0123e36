import PixelCalc.Proofs.Builtin.Validity
import PixelCalc.Proofs.Evaluation.Preservation

/-!
# Matrices stay valid

Expressions make matrices of matrices. If those of the environment are valid, so are all that come
up in an evaluation, all that it returns and all that it leaves behind, and no construction fails on
the way.

- `Environment.Valid`: the invariant.
- `preserved_valid`: the single steps of an evaluation keep it.
- `evaluateEach`: sources evaluated one after the other.
- `matrices_stay_valid`: evaluations keep it, and no construction fails.
-/

namespace PixelCalc

/-- The matrices of an environment are valid, and its own functions make valid ones of valid
ones. -/
structure Environment.Valid (env : Environment) : Prop where
  values : ∀ name v, env.find? name = some v → v.Valid
  functions : ∀ name f, env.functions.find? name = some f →
    ∀ args, (∀ v ∈ args, v.Valid) → (f args).Valid

variable {env : Environment}

/-! ### Single steps -/

theorem Environment.Valid.value (h : env.Valid) (n : String) : (env.value n).Valid := by
  unfold Environment.value
  cases hn : env.find? n with
  | none => trivial
  | some v => exact h.values n v hn

theorem Environment.Valid.bind (h : env.Valid) (n : String) {v : Value} (hv : v.Valid) :
    (env.bind n v).Valid := by
  refine ⟨fun name w hw => ?_, h.functions⟩
  rcases Environment.find?_bind_cases hw with ⟨-, rfl⟩ | hw
  · exact hv
  · exact h.values name w hw

theorem Environment.Valid.assigned (h : env.Valid) (op : Operator) (left : Value) {right : Value}
    (hr : right.Valid) : (env.assigned op left right).Valid := by
  unfold Environment.assigned
  split
  · exact h
  · exact h.bind _ hr
  · exact h

theorem Environment.Valid.call (h : env.Valid) (n : String) {args : List Value}
    (hargs : ∀ v ∈ args, v.Valid) : (env.call n args).Valid := by
  -- built-in functions come first, whatever is registered under their names
  unfold Environment.call Environment.function?
  cases hn : Builtin.ofName? n with
  | some f => exact f.valid_invoke hargs
  | none =>
    cases hf : env.functions.find? n with
    | some f => exact h.functions n f hf args hargs
    | none => trivial

/-- Validity passes every step of an evaluation, so it passes the evaluation. -/
theorem preserved_valid : Preserved Environment.Valid Value.Valid where
  number _ := trivial
  nothing := trivial
  fault _ := trivial
  name n h := h.value n
  compute op _ _ hl hr := op.valid_compute hl hr
  assigned op _ _ h _ hr := h.assigned op _ hr
  call n _ h hargs := h.call n hargs

/-! ### Evaluations -/

theorem Environment.Valid.eval (h : env.Valid) (e : Expr) :
    Keeps Environment.Valid Value.Valid env e :=
  preserved_valid.eval e (fun _ _ => trivial) h

theorem Environment.Valid.evaluate (h : env.Valid) (source : String) :
    (evaluate env source).1.Valid ∧ (evaluate env source).2.Valid := by
  unfold PixelCalc.evaluate
  split
  · exact ⟨(h.eval _).value, (h.eval _).environment⟩
  · exact ⟨trivial, h⟩

/-- The values of sources evaluated one after the other, and the environment after the last. -/
def evaluateEach (env : Environment) : List String → List Value × Environment
  | [] => ([], env)
  | source :: rest =>
    let v := evaluate env source
    let vs := evaluateEach v.2 rest
    (v.1 :: vs.1, vs.2)

/-- Sources behind others begin in the environment that those leave. -/
theorem evaluateEach_append (env : Environment) (before after : List String) :
    evaluateEach env (before ++ after) =
      let first := evaluateEach env before
      let second := evaluateEach first.2 after
      (first.1 ++ second.1, second.2) := by
  induction before generalizing env with
  | nil => rfl
  | cons source before ih =>
    rw [List.cons_append, evaluateEach, ih]
    rfl

@[simp] theorem length_evaluateEach (env : Environment) (sources : List String) :
    (evaluateEach env sources).1.length = sources.length := by
  induction sources generalizing env with
  | nil => rfl
  | cons source rest ih => exact congrArg (· + 1) (ih _)

/-- The value of a source is that in the environment that the ones before it leave. -/
theorem evaluateEach_getElem? (env : Environment) (before : List String) (source : String)
    (after : List String) :
    (evaluateEach env (before ++ source :: after)).1[before.length]? =
      some (evaluate (evaluateEach env before).2 source).1 := by
  rw [evaluateEach_append, List.getElem?_append_right (Nat.le_of_eq (length_evaluateEach _ _)),
    length_evaluateEach, Nat.sub_self]
  rfl

/-- Sources one after the other keep what each of them keeps. -/
theorem evaluateEach_keeps_of_mem {Holds : Environment → Prop} {Good : Value → Prop}
    {sources : List String}
    (h : ∀ {env}, Holds env → ∀ source ∈ sources,
      Good (evaluate env source).1 ∧ Holds (evaluate env source).2)
    (henv : Holds env) :
    (∀ v ∈ (evaluateEach env sources).1, Good v) ∧ Holds (evaluateEach env sources).2 := by
  induction sources generalizing env with
  | nil => exact ⟨fun _ => nofun, henv⟩
  | cons source rest ih =>
    obtain ⟨hvalue, hafter⟩ := h henv source List.mem_cons_self
    obtain ⟨hvalues, hafter⟩ := ih (fun henv s hs => h henv s (.tail _ hs)) hafter
    exact ⟨List.forall_mem_cons.mpr ⟨hvalue, hvalues⟩, hafter⟩

/-- Sources one after the other keep what every source keeps. -/
theorem evaluateEach_keeps {Holds : Environment → Prop} {Good : Value → Prop}
    (h : ∀ {env}, Holds env → ∀ source,
      Good (evaluate env source).1 ∧ Holds (evaluate env source).2)
    (henv : Holds env) (sources : List String) :
    (∀ v ∈ (evaluateEach env sources).1, Good v) ∧ Holds (evaluateEach env sources).2 :=
  evaluateEach_keeps_of_mem (fun henv source _ => h henv source) henv

theorem Environment.Valid.evaluateEach (h : env.Valid) (sources : List String) :
    (∀ v ∈ (evaluateEach env sources).1, v.Valid) ∧ (evaluateEach env sources).2.Valid :=
  evaluateEach_keeps Environment.Valid.evaluate h sources

/-! ### Constructions -/

/-- No built-in function ends with a matrix that its check refuses, or breaks an assertion. -/
theorem Builtin.run_ne_construction (f : Builtin) {args : List Value} (hargs : AllValid args)
    {fault : Fault} (hfault : fault.ofConstruction = true) : f.run args ≠ .error fault := by
  intro h
  have hrun := f.ensures_run hargs
  rw [h] at hrun
  rw [show fault.ofConstruction = false from hrun] at hfault
  cases hfault

/-- On valid operands no operator fails to build its matrix. -/
theorem Operator.onValues_ne_construction (op : Operator) {left right : Value} (hl : left.Valid)
    (hr : right.Valid) (hright : right.isError = false) {fault : Fault}
    (hfault : fault.ofConstruction = true) : op.onValues left right ≠ .error fault := by
  intro h
  have hsound := op.sound_onValues hl (hr.sound hright)
  rw [h] at hsound
  rw [show fault.ofConstruction = false from hsound] at hfault
  cases hfault

/-- **Matrices stay valid.** Whatever sources are evaluated one after the other, all values that
they return or bind are valid, as are the values of all subexpressions; and on valid values neither
a built-in function nor an operator builds a matrix against a check or an assertion. -/
theorem matrices_stay_valid (env : Environment) (henv : env.Valid) :
    (∀ sources, (∀ v ∈ (evaluateEach env sources).1, v.Valid) ∧
      ∀ name v, (evaluateEach env sources).2.find? name = some v → v.Valid) ∧
    (∀ e : Expr, ∀ visit ∈ e.trace env, visit.value.Valid) ∧
    (∀ (f : Builtin) args, (∀ v ∈ args, v.Valid) →
      (∀ g error, f.run args ≠ .error (.badMatrix g error)) ∧
      ∀ assertion, f.run args ≠ .error (.broken assertion)) ∧
    (∀ (op : Operator) left right, left.Valid → right.Valid → right.isError = false →
      ∀ assertion, op.onValues left right ≠ .error (.broken assertion)) := by
  refine ⟨fun sources => ?_, fun e => (henv.eval e).visits, fun f args hargs => ?_, ?_⟩
  · obtain ⟨hvalues, hafter⟩ := henv.evaluateEach sources
    exact ⟨hvalues, hafter.values⟩
  · exact ⟨fun _ _ => f.run_ne_construction hargs rfl,
      fun _ => f.run_ne_construction hargs rfl⟩
  · exact fun op _ _ hl hr hright _ => op.onValues_ne_construction hl hr hright rfl

/-- A mask in a variable. -/
theorem matrices_stay_valid_mask :
    let env := Environment.empty.bind "m" (.matrix ⟨.mask, 1, 2, 1, #[0, 255]⟩)
    env.Valid ∧ ∀ v ∈ (evaluateEach env ["n = ToImage(m)", "n + m", "n == m"]).1, v.Valid := by
  intro env
  have hmask : Matrix.Valid ⟨.mask, 1, 2, 1, #[0, 255]⟩ :=
    ⟨Nat.one_pos, Nat.two_pos, rfl, rfl, fun _ => by decide⟩
  have hempty : Environment.empty.Valid := ⟨fun _ _ => nofun, fun _ _ => nofun⟩
  have henv : env.Valid := hempty.bind "m" hmask
  exact ⟨henv, ((matrices_stay_valid env henv).1 _).1⟩

end PixelCalc
