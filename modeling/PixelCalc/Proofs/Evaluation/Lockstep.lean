import PixelCalc.Proofs.Evaluation.Frame
import PixelCalc.Proofs.Syntax.Operands

/-!
# Evaluations in step

Two evaluations of one expression go on in step for as long as they read the same values and call
the same functions. Nothing else of their environments has an influence on them, whatever they bind
in the meantime: what one binds the other binds too.

- `InStep`: a relation between environments in which the same names have the same values and call
  the same functions, and which no binding made in both undoes.
- `InStep.eval`: it is kept by evaluations, and they have the same value.
- `evaluate_in_step`: an evaluation depends on the names that are written in its source.
-/

namespace PixelCalc

/-- In environments that `R` relates, the names of `reads` have the same values and those of `calls`
call the same functions, and `R` still relates them after the same binding. -/
structure InStep (R : Environment → Environment → Prop) (reads calls : String → Prop) : Prop where
  value {env env' : Environment} (h : R env env') {n : String} (hn : reads n) :
    env.value n = env'.value n
  call {env env' : Environment} (h : R env env') {n : String} (hn : calls n) (args : List Value) :
    env.call n args = env'.call n args
  bind {env env' : Environment} (h : R env env') (n : String) (v : Value) :
    R (env.bind n v) (env'.bind n v)

variable {R : Environment → Environment → Prop} {reads calls : String → Prop}

/-! ### What an evaluation reads -/

/-- Of the expressions visited, the names are among `reads` and the calls among `calls`. -/
structure ReadsOnly (reads calls : String → Prop) (visited : List Expr) : Prop where
  names : ∀ n, .name n ∈ visited → reads n
  calls : ∀ n arguments, .call n arguments ∈ visited → calls n

theorem ReadsOnly.append {es es' : List Expr} (h : ReadsOnly reads calls (es ++ es')) :
    ReadsOnly reads calls es ∧ ReadsOnly reads calls es' :=
  ⟨⟨fun n hmem => h.names n (List.mem_append_left _ hmem),
      fun n arguments hmem => h.calls n arguments (List.mem_append_left _ hmem)⟩,
    ⟨fun n hmem => h.names n (List.mem_append_right _ hmem),
      fun n arguments hmem => h.calls n arguments (List.mem_append_right _ hmem)⟩⟩

theorem exprLeaves_eq_flatMap (es : List Expr) : exprLeaves es = es.flatMap Expr.leaves := by
  induction es with
  | nil => rfl
  | cons e es ih => rw [exprLeaves, ih, List.flatMap_cons]

theorem exprCalls_eq_flatMap (es : List Expr) : exprCalls es = es.flatMap Expr.calls := by
  induction es with
  | nil => rfl
  | cons e es ih => rw [exprCalls, ih, List.flatMap_cons]

/-- A leaf that is no number is the same on the left of an operator as it is elsewhere. -/
theorem mem_asLeft {e : Expr} {leaf : Leaf} (op : Operator) (hnumber : ∀ x, leaf ≠ .number x)
    (h : leaf ∈ e.leaves) : leaf ∈ asLeft op e e.leaves := by
  unfold asLeft
  split
  · exact absurd (List.mem_singleton.mp h) (hnumber _)
  · exact absurd (List.mem_singleton.mp h) (hnumber _)
  · exact h

/-- A name that is evaluated is a leaf. -/
theorem mem_leaves_of_evaluated {e : Expr} {n : String} (h : .name n ∈ e.evaluated) :
    .name n ∈ e.leaves := by
  induction e using Expr.inductEvaluated with
  | number | nothing | target => cases List.mem_singleton.mp h
  | name m =>
    cases List.mem_singleton.mp h
    exact List.mem_cons_self
  | malformed e fault hmalformed =>
    rw [evaluated_malformed hmalformed] at h
    cases List.mem_singleton.mp h
    cases hmalformed
  | brackets e ih =>
    show .name n ∈ e.leaves ++ [] ++ []
    rw [List.append_nil, List.append_nil]
    exact ih (mem_parts h nofun)
  | operation op left right ihl ihr =>
    rcases List.mem_append.mp (mem_parts h nofun) with h | h
    · exact List.mem_append_left _ (mem_asLeft op nofun (ihl h))
    · exact List.mem_append_right _ (ihr h)
  | call m arguments ih =>
    obtain ⟨a, ha, h⟩ := mem_evaluatedAll (mem_parts h nofun)
    rw [Expr.leaves, exprLeaves_eq_flatMap]
    exact List.mem_flatMap.mpr ⟨a, ha, ih a ha h⟩

/-- A function that is called in an evaluation is one of the calls. -/
theorem mem_calls_of_evaluated {e : Expr} {n : String} {arguments : List Expr}
    (h : .call n arguments ∈ e.evaluated) : n ∈ e.calls := by
  induction e using Expr.inductEvaluated with
  | number | nothing | name | target => cases List.mem_singleton.mp h
  | malformed e fault hmalformed =>
    rw [evaluated_malformed hmalformed] at h
    cases List.mem_singleton.mp h
    cases hmalformed
  | brackets e ih =>
    show n ∈ e.calls ++ [] ++ []
    rw [List.append_nil, List.append_nil]
    exact ih (mem_parts h nofun)
  | operation op left right ihl ihr =>
    rcases List.mem_append.mp (mem_parts h nofun) with h | h
    · exact List.mem_append_left _ (ihl h)
    · exact List.mem_append_right _ (ihr h)
  | call m arguments' ih =>
    rw [Expr.calls, exprCalls_eq_flatMap]
    rcases List.mem_append.mp h with h | h
    · obtain ⟨a, ha, h⟩ := mem_evaluatedAll h
      exact List.mem_cons_of_mem _ (List.mem_flatMap.mpr ⟨a, ha, ih a ha h⟩)
    · cases List.mem_singleton.mp h
      exact List.mem_cons_self

/-! ### Evaluations keep in step -/

namespace InStep

variable {env env' : Environment}

/-- An operation binds the same in both environments, or nothing. -/
theorem assigned (h : InStep R reads calls) (henv : R env env') (op : Operator)
    (left right : Value) : R (env.assigned op left right) (env'.assigned op left right) := by
  unfold Environment.assigned
  split
  · exact henv
  · exact h.bind henv _ _
  · exact henv

/-- Arguments are evaluated from left to right, each in what the one before it left behind. -/
theorem evalAll {arguments : List Expr}
    (h : ∀ a ∈ arguments, ReadsOnly reads calls a.evaluated → ∀ env env', R env env' →
      (a.eval env).1 = (a.eval env').1 ∧ R (a.eval env).2 (a.eval env').2)
    (hreads : ReadsOnly reads calls (evaluatedAll arguments)) (henv : R env env') :
    (PixelCalc.evalAll env arguments).1 = (PixelCalc.evalAll env' arguments).1 ∧
      R (PixelCalc.evalAll env arguments).2 (PixelCalc.evalAll env' arguments).2 := by
  induction arguments generalizing env env' with
  | nil => exact ⟨rfl, henv⟩
  | cons a rest ih =>
    obtain ⟨ha, hrest⟩ := hreads.append
    obtain ⟨hvalue, hafter⟩ := h a List.mem_cons_self ha env env' henv
    obtain ⟨hvalues, hlast⟩ := ih (fun b hb => h b (.tail _ hb)) hrest hafter
    refine ⟨?_, hlast⟩
    rw [PixelCalc.evalAll, PixelCalc.evalAll, hvalue, hvalues]

/-- Evaluations in environments that are related have the same value, and leave environments that
are related. -/
theorem eval (h : InStep R reads calls) (e : Expr) (hreads : ReadsOnly reads calls e.evaluated)
    (henv : R env env') :
    (e.eval env).1 = (e.eval env').1 ∧ R (e.eval env).2 (e.eval env').2 := by
  induction e using Expr.inductEvaluated generalizing env env' with
  | number | nothing | target => exact ⟨rfl, henv⟩
  | name n => exact ⟨h.value henv (hreads.names n List.mem_cons_self), henv⟩
  | malformed e fault hmalformed =>
    rw [eval_malformed hmalformed, eval_malformed hmalformed]
    exact ⟨rfl, henv⟩
  | brackets e ih => exact ih hreads.append.1 henv
  | operation op left right ihl ihr =>
    obtain ⟨hoperands, -⟩ := hreads.append
    -- the environments that the left operands leave are those the right ones begin in
    obtain ⟨hl, hbetween⟩ := ihl hoperands.append.1 henv
    obtain ⟨hr, hafter⟩ := ihr hoperands.append.2 hbetween
    rw [Expr.eval, Expr.eval, hl, hr]
    exact ⟨rfl, h.assigned hafter op _ _⟩
  | call n arguments ih =>
    obtain ⟨hargs, hafter⟩ :=
      InStep.evalAll (fun a ha hra _ _ henv => ih a ha hra henv) hreads.append.1 henv
    have hn : calls n := hreads.calls n arguments (List.mem_append_right _ List.mem_cons_self)
    refine ⟨?_, hafter⟩
    rw [Expr.eval, Expr.eval, hargs]
    exact h.call hafter hn _

end InStep

/-! ### Names of a source -/

theorem mem_of_operands {t : Token} {tokens : List Token} (h : t ∈ operands tokens) :
    t ∈ tokens := by
  fun_induction operands tokens with
  | case1 => cases h
  | case2 x rest ih =>
    rcases List.mem_cons.mp h with rfl | h
    · exact List.mem_cons_self
    · exact List.mem_cons_of_mem _ (ih h)
  | case3 n rest hopens ih => exact List.mem_cons_of_mem _ (ih h)
  | case4 n rest hopens ih =>
    rcases List.mem_cons.mp h with rfl | h
    · exact List.mem_cons_self
    · exact List.mem_cons_of_mem _ (ih h)
  | case5 other rest _ _ ih => exact List.mem_cons_of_mem _ (ih h)

/-- No operator supplies a name. -/
theorem Written.mem_name {leaves : List Leaf} {tokens : List Token} (h : Written leaves tokens)
    {n : String} (hn : .name n ∈ leaves) : .name n ∈ tokens := by
  induction h with
  | nil => cases hn
  | name m h ih =>
    rcases List.mem_cons.mp hn with heq | hn
    · cases heq
      exact List.mem_cons_self
    · exact List.mem_cons_of_mem _ (ih hn)
  | number x h ih | base x h ih =>
    rcases List.mem_cons.mp hn with heq | hn
    · cases heq
    · exact List.mem_cons_of_mem _ (ih hn)
  | zero h ih | nothing h ih =>
    rcases List.mem_cons.mp hn with heq | hn
    · cases heq
    · exact ih hn

/-- Both environments have the same functions, and the same values for the names of `shared`. -/
structure Agree (shared : String → Prop) (env env' : Environment) : Prop where
  functions : ∀ n, env.functions.find? n = env'.functions.find? n
  values : ∀ n, shared n → env.find? n = env'.find? n

/-- Environments that agree on the shared names take every step alike. -/
theorem inStep_agree (shared : String → Prop) :
    InStep (Agree shared) shared (fun _ => True) where
  value h n hn := by
    unfold Environment.value
    rw [h.values n hn]
  call h n _ args := by
    unfold Environment.call Environment.function?
    rw [h.functions n]
  bind {env env'} h n v := by
    refine ⟨h.functions, fun m hm => ?_⟩
    -- the name bound may be one that is not shared, but then no other name is touched
    by_cases hname : m = n
    · rw [hname, Environment.find?_bind_self, Environment.find?_bind_self]
    · rw [Environment.find?_bind_other env hname, Environment.find?_bind_other env' hname]
      exact h.values m hm

/-- The names that stand in a source. -/
def NamedIn (source : String) (n : String) : Prop :=
  .name n ∈ (Scan.ofSource source).tokens

/-- The evaluation of a tree reads only names that stand in its source. -/
theorem parse_readsOnly {source : String} {e : Expr} (h : parse source = .ok e) :
    ReadsOnly (NamedIn source) (fun _ => True) e.evaluated := by
  obtain ⟨tokens, htokens, hcarries⟩ := parse_carries h
  have hscan : Scan.ofSource source = ⟨tokens, none⟩ := tokenize_eq_ok_iff.mp htokens
  refine ⟨fun n hmem => ?_, fun _ _ _ => trivial⟩
  unfold NamedIn
  rw [hscan]
  exact mem_of_operands (hcarries.leaves.mem_name (mem_leaves_of_evaluated hmem))

/-- **An evaluation depends on what its source names.** In two environments with the same functions,
in which the names that stand in a source have the same values or none, the source has the same
value, and afterwards these names have the same values or none again. -/
theorem evaluate_in_step (source : String) {env env' : Environment}
    (hfunctions : ∀ n, env.functions.find? n = env'.functions.find? n)
    (hvalues : ∀ n, .name n ∈ (Scan.ofSource source).tokens → env.find? n = env'.find? n) :
    (evaluate env source).1 = (evaluate env' source).1 ∧
      ∀ n, .name n ∈ (Scan.ofSource source).tokens →
        (evaluate env source).2.find? n = (evaluate env' source).2.find? n := by
  have hagree : Agree (NamedIn source) env env' := ⟨hfunctions, hvalues⟩
  unfold evaluate
  cases hparse : parse source with
  | error error => exact ⟨rfl, hvalues⟩
  | ok e =>
    obtain ⟨hvalue, hafter⟩ := (inStep_agree _).eval e (parse_readsOnly hparse) hagree
    exact ⟨hvalue, hafter.values⟩

/-- The bracketed `p` is a reference to `q`, which the source does not name: what `q` was before has
no influence on the assignment to it. -/
theorem evaluate_in_step_reference :
    let env := (Environment.empty.bind "p" (.reference "q")).bind "x" (.number 2)
    let env' := env.bind "q" (.number 7)
    env.find? "q" ≠ env'.find? "q" ∧
      (∀ n, env.functions.find? n = env'.functions.find? n) ∧
      (∀ n, .name n ∈ (Scan.ofSource "(p) = x").tokens → env.find? n = env'.find? n) ∧
      (evaluate env "(p) = x").1 = (evaluate env' "(p) = x").1 ∧
      ∀ n, .name n ∈ (Scan.ofSource "(p) = x").tokens →
        (evaluate env "(p) = x").2.find? n = (evaluate env' "(p) = x").2.find? n := by
  intro env env'
  have hscan : Scan.ofSource "(p) = x" = ⟨[.opening .round, .name "p", .closing .round,
      .operator .assign, .name "x"], none⟩ := by
    have hopening : Scan.next false "(p) = x".toList = .token (.opening .round) "p) = x".toList := rfl
    have hp : Scan.next (Token.opening .round).endsValue "p) = x".toList =
        .token (.name "p") ") = x".toList := rfl
    have hclosing : Scan.next (Token.name "p").endsValue ") = x".toList =
        .token (.closing .round) " = x".toList := rfl
    have hassign : Scan.next (Token.closing .round).endsValue " = x".toList =
        .token (.operator .assign) " x".toList := rfl
    have hx : Scan.next (Token.operator .assign).endsValue " x".toList = .token (.name "x") [] := rfl
    rw [Scan.ofSource, Scan.scan_of_token hopening, Scan.scan_of_token hp,
      Scan.scan_of_token hclosing, Scan.scan_of_token hassign, Scan.scan_of_token hx, Scan.scan_nil]
  have hfunctions : ∀ n, env.functions.find? n = env'.functions.find? n := fun _ => rfl
  have hvalues : ∀ n, .name n ∈ (Scan.ofSource "(p) = x").tokens →
      env.find? n = env'.find? n := by
    intro n hn
    rw [hscan] at hn
    refine (Environment.find?_bind_other env ?_ _).symm
    rintro rfl
    simp at hn
  have hdiffer : env.find? "q" ≠ env'.find? "q" := by
    rw [Environment.find?_bind_self]
    nofun
  exact ⟨hdiffer, hfunctions, hvalues, evaluate_in_step _ hfunctions hvalues⟩

end PixelCalc
