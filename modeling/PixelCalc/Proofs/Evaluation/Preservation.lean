import PixelCalc.Proofs.Evaluation.Trace

/-!
# What evaluation preserves

Everything an evaluation does is to read a name, to compute an operation and make its binding, and
to call a function. What each of these keeps, every evaluation keeps.

- `Preserved`: a property of environments and one of values that the single steps keep.
- `Preserved.eval`: evaluations keep them.
-/

namespace PixelCalc

/-- Single steps lead from environments of which `Holds` is true and values of which `Good` is true
to such environments and values. -/
structure Preserved (Holds : Environment → Prop) (Good : Value → Prop) : Prop where
  number (x : Float) : Good (.number x)
  nothing : Good .nothing
  fault (fault : Fault) : Good (.error fault)
  name {env : Environment} (n : String) (h : Holds env) : Good (env.value n)
  compute (op : Operator) {left right : Value} (hl : Good left) (hr : Good right) :
    Good (op.compute left right)
  assigned {env : Environment} (op : Operator) {left right : Value} (h : Holds env)
    (hl : Good left) (hr : Good right) : Holds (env.assigned op left right)
  call {env : Environment} (n : String) {args : List Value} (h : Holds env)
    (hargs : ∀ v ∈ args, Good v) : Good (env.call n args)

/-- What is known of an evaluation: of its value, of the environment that it leaves, and of the
values of all its visits. -/
structure Keeps (Holds : Environment → Prop) (Good : Value → Prop) (env : Environment)
    (e : Expr) : Prop where
  value : Good (e.eval env).1
  environment : Holds (e.eval env).2
  visits : ∀ visit ∈ e.trace env, Good visit.value

variable {Holds : Environment → Prop} {Good : Value → Prop}

/-- Targets are the only subexpressions whose values no step has computed. -/
def TargetsGood (Good : Value → Prop) (visited : List Expr) : Prop :=
  ∀ n, .target n ∈ visited → Good (.reference n)

theorem TargetsGood.append {es es' : List Expr} (h : TargetsGood Good (es ++ es')) :
    TargetsGood Good es ∧ TargetsGood Good es' :=
  ⟨fun n hmem => h n (List.mem_append_left _ hmem),
    fun n hmem => h n (List.mem_append_right _ hmem)⟩

theorem TargetsGood.arguments {arguments : List Expr}
    (h : TargetsGood Good (evaluatedAll arguments)) :
    ∀ a ∈ arguments, TargetsGood Good a.evaluated := by
  induction arguments with
  | nil => exact fun _ => nofun
  | cons a rest ih =>
    obtain ⟨ha, hrest⟩ := h.append
    exact List.forall_mem_cons.mpr ⟨ha, ih hrest⟩

/-- The visit of the expression itself is the last one. -/
theorem forall_visits_last {env : Environment} {e : Expr} {before : List Visit}
    (hvalue : Good (e.eval env).1) (hbefore : ∀ visit ∈ before, Good visit.value) :
    ∀ visit ∈ before ++ [⟨env, e⟩], Good visit.value :=
  List.forall_mem_append.mpr ⟨hbefore, List.forall_mem_singleton.mpr hvalue⟩

/-- Arguments keep what each of them keeps. -/
theorem evalAll_keeps {arguments : List Expr}
    (h : ∀ a ∈ arguments, ∀ env, Holds env → Keeps Holds Good env a) {env : Environment}
    (henv : Holds env) :
    (∀ v ∈ (evalAll env arguments).1, Good v) ∧ Holds (evalAll env arguments).2 ∧
      ∀ visit ∈ traceAll env arguments, Good visit.value := by
  -- every argument begins in the environment that the ones before it leave
  induction arguments generalizing env with
  | nil => exact ⟨fun _ => nofun, henv, fun _ => nofun⟩
  | cons a rest ih =>
    have hout := h a List.mem_cons_self env henv
    obtain ⟨hvalues, hafter, hvisits⟩ := ih (fun b hb => h b (.tail _ hb)) hout.environment
    refine ⟨List.forall_mem_cons.mpr ⟨hout.value, hvalues⟩, hafter, ?_⟩
    exact List.forall_mem_append.mpr ⟨hout.visits, hvisits⟩

/-- Evaluations keep what single steps keep. -/
theorem Preserved.eval (h : Preserved Holds Good) (e : Expr)
    (htargets : TargetsGood Good e.evaluated) {env : Environment} (henv : Holds env) :
    Keeps Holds Good env e := by
  induction e using Expr.inductEvaluated generalizing env with
  | number x => exact ⟨h.number x, henv, List.forall_mem_singleton.mpr (h.number x)⟩
  | nothing => exact ⟨h.nothing, henv, List.forall_mem_singleton.mpr h.nothing⟩
  | name n => exact ⟨h.name n henv, henv, List.forall_mem_singleton.mpr (h.name n henv)⟩
  | target n =>
    have hn : Good (.reference n) := htargets n List.mem_cons_self
    exact ⟨hn, henv, List.forall_mem_singleton.mpr hn⟩
  | malformed e fault hmalformed =>
    have heval := eval_malformed hmalformed env
    have hvalue : Good (e.eval env).1 := heval ▸ h.fault fault
    refine ⟨hvalue, heval ▸ henv, ?_⟩
    rw [trace_malformed hmalformed]
    exact List.forall_mem_singleton.mpr hvalue
  | brackets e ih =>
    have hout := ih htargets.append.1 henv
    exact ⟨hout.value, hout.environment, forall_visits_last hout.value hout.visits⟩
  | operation op left right ihl ihr =>
    obtain ⟨hoperands, -⟩ := htargets.append
    have hl := ihl hoperands.append.1 henv
    have hr := ihr hoperands.append.2 hl.environment
    have hvalue := h.compute op hl.value hr.value
    refine ⟨hvalue, h.assigned op hr.environment hl.value hr.value, ?_⟩
    exact forall_visits_last hvalue (List.forall_mem_append.mpr ⟨hl.visits, hr.visits⟩)
  | call n arguments ih =>
    obtain ⟨hargs, hafter, hvisits⟩ :=
      evalAll_keeps (fun a ha _ henv => ih a ha (htargets.append.1.arguments a ha) henv) henv
    have hvalue := h.call n hafter hargs
    exact ⟨hvalue, hafter, forall_visits_last hvalue hvisits⟩

end PixelCalc
