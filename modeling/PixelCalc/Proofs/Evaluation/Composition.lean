import PixelCalc.Proofs.Evaluation.MatrixInvariant
import PixelCalc.Proofs.Syntax.Assembly

/-!
# Evaluation is compositional

The value of a source put together from others, and its effect, are made of the values and effects
of its parts: they are evaluated from left to right, as they are alone, and then combined.

- `evalAll_brackets`: the arguments of a call are evaluated like sources one after the other.
- `evaluate_composed`: operations, calls and brackets.
-/

namespace PixelCalc

variable {source source' : String} {e e' : Expr}

theorem evaluate_of_parse (h : parse source = .ok e) (env : Environment) :
    evaluate env source = e.eval env := by
  unfold evaluate
  rw [h]

/-- Brackets around one expression change nothing. -/
theorem eval_brackets (env : Environment) (e : Expr) :
    (Expr.group [.expr e] []).eval env = e.eval env := by
  rw [Expr.eval, Item.eval]

/-- Arguments are evaluated as their sources are one after the other. -/
theorem evalAll_brackets {sources : List String} {es : List Expr}
    (h : sources.map parse = es.map .ok) (env : Environment) :
    evalAll env (es.map fun e => .group [.expr e] []) = evaluateEach env sources := by
  induction sources generalizing es env with
  | nil =>
    cases List.map_eq_nil_iff.mp h.symm
    rfl
  | cons source sources ih =>
    obtain ⟨e, es, rfl, he, h⟩ := List.map_eq_cons_iff.mp h.symm
    rw [List.map_cons, evalAll, eval_brackets, ih h.symm, evaluateEach, evaluate_of_parse he.symm]

/-- Sources that have trees have them together. -/
theorem exists_trees {sources : List String} (h : ∀ source ∈ sources, ∃ e, parse source = .ok e) :
    ∃ es : List Expr, sources.map parse = es.map .ok := by
  induction sources with
  | nil => exact ⟨[], rfl⟩
  | cons source sources ih =>
    obtain ⟨⟨e, he⟩, hmore⟩ := List.forall_mem_cons.mp h
    obtain ⟨es, hes⟩ := ih hmore
    exact ⟨e :: es, by rw [List.map_cons, List.map_cons, he, hes]⟩

/-- **Evaluation is compositional.** For sources that have trees, an operation on two of them in
brackets evaluates the first, then the second in the environment that the first has left, and then
applies the operator to the values in the environment that the second has left. A call of a name
evaluates its arguments in order and applies the function of that name to their values, or is the
fault that there is none. Brackets change nothing. -/
theorem evaluate_composed (env : Environment) :
    (∀ (op : Operator) source source' e e', parse source = .ok e → parse source' = .ok e' →
      evaluate env ("(" ++ source ++ ") " ++ op.symbol ++ " (" ++ source' ++ ")") =
        let left := evaluate env source
        let right := evaluate left.2 source'
        right.2.operate op left.1 right.1) ∧
    (∀ f sources, isName f = true → sources ≠ [] →
      (∀ source ∈ sources, ∃ e, parse source = .ok e) →
      evaluate env (f ++ "(" ++ ", ".intercalate sources ++ ")") =
        let args := evaluateEach env sources
        match args.2.function? f with
        | some function => (function args.1, args.2)
        | none => (.error (.unknownFunction f), args.2)) ∧
    (∀ source e, parse source = .ok e →
      evaluate env ("(" ++ source ++ ")") = evaluate env source) := by
  refine ⟨fun op source source' e e' h h' => ?_, fun f sources hf hsources h => ?_,
    fun source e h => ?_⟩
  · rw [evaluate_of_parse (parse_operation h h' op), Expr.eval, eval_brackets, eval_brackets]
    unfold evaluate
    rw [h, h']
  · obtain ⟨es, hes⟩ := exists_trees h
    rw [evaluate_of_parse (parse_call hf hsources hes), Expr.eval, evalAll_brackets hes]
    unfold Environment.call
    show (_, _) = match (evaluateEach env sources).2.function? f with
      | some function => (function _, _)
      | none => (.error (.unknownFunction f), _)
    cases (evaluateEach env sources).2.function? f <;> rfl
  · rw [evaluate_of_parse (parse_round h), evaluate_of_parse h, eval_brackets]

/-- What the left operand or an earlier argument assigns is seen by what follows it. -/
theorem evaluate_composed_assignment :
    let env := Environment.empty.bind "x" (.number 2)
    let after := env.bind "y" (.number 2)
    (parse "y = x" = .ok (.operation .assign (.target "y") (.name "x")) ∧
      parse "y" = .ok (.name "y") ∧ isName "f" = true) ∧
      evaluate env "(y = x) == (y)" = (.boolean true, after) ∧
      evaluate env "f(y = x, y)" = (.error (.unknownFunction "f"), after) ∧
      evaluate env "(y)" = evaluate env "y" := by
  have hname : parse "y" = .ok (.name "y") := by
    have hy : Scan.next false "y".toList = .token (.name "y") [] := rfl
    have hscan : Scan.scan false "y".toList = ⟨[.name "y"], none⟩ := by
      rw [Scan.scan_of_token hy, Scan.scan_nil]
    refine parse_iff.mpr ⟨[.expr (.name "y")], ⟨_, hscan, rfl⟩, ?_⟩
    unfold Folding.Folds
    rw [Folding.resolveItems_of_no_group (by simp)]
    rfl
  have hassign : parse "y = x" = .ok (.operation .assign (.target "y") (.name "x")) := by
    have hy : Scan.next false "y = x".toList = .token (.name "y") " = x".toList := rfl
    have hsign : Scan.next (Token.name "y").endsValue " = x".toList =
        .token (.operator .assign) " x".toList := rfl
    have hx : Scan.next (Token.operator .assign).endsValue " x".toList = .token (.name "x") [] := rfl
    have hscan : Scan.scan false "y = x".toList =
        ⟨[.name "y", .operator .assign, .name "x"], none⟩ := by
      rw [Scan.scan_of_token hy, Scan.scan_of_token hsign, Scan.scan_of_token hx, Scan.scan_nil]
    refine parse_iff.mpr
      ⟨[.expr (.name "y"), .operator .assign, .expr (.name "x")], ⟨_, hscan, rfl⟩, ?_⟩
    unfold Folding.Folds
    rw [Folding.resolveItems_of_no_group (by simp)]
    rfl
  intro env after
  have hletter : isName "f" = true := by
    decide +kernel
  have hfunction : after.function? "f" = none := by
    decide +kernel
  have hleft : evaluate env "y = x" = (.number 2, after) := by
    rw [evaluate_of_parse hassign]
    rfl
  have hright : evaluate after "y" = (.number 2, after) := by
    rw [evaluate_of_parse hname]
    rfl
  have htrees : ∀ source ∈ ["y = x", "y"], ∃ e, parse source = .ok e :=
    List.forall_mem_cons.mpr ⟨⟨_, hassign⟩, List.forall_mem_singleton.mpr ⟨_, hname⟩⟩
  obtain ⟨hoperation, hcall, hround⟩ := evaluate_composed env
  refine ⟨⟨hassign, hname, hletter⟩, ?_, ?_, hround "y" _ hname⟩
  · refine (hoperation .equal _ _ _ _ hassign hname).trans ?_
    rw [hleft]
    show (evaluate after "y").2.operate .equal _ (evaluate after "y").1 = _
    rw [hright]
    rfl
  · refine (hcall "f" ["y = x", "y"] hletter (List.cons_ne_nil _ _) htrees).trans ?_
    have hargs : evaluateEach env ["y = x", "y"] = ([.number 2, .number 2], after) := by
      rw [evaluateEach, hleft, evaluateEach, hright]
      rfl
    rw [hargs]
    show (match after.function? "f" with | some function => _ | none => _) = _
    rw [hfunction]

end PixelCalc
