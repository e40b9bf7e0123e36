import PixelCalc.Proofs.Evaluation.Composition
import PixelCalc.Proofs.Syntax.Resolution

/-!
# Method calls

`r . f(a, b)` is another spelling of `f(r, a, b)`. Their trees differ, since the receiver becomes an
argument as it stands while the others are segments of the brackets, but they are evaluated alike.

- `foldSegment_single`: a segment that folds to a tree without an operation on top has no operators,
  so that it is folded by its calls alone.
- `folds_method`: a receiver, a dot, a name and brackets are folded to a call.
- `parse_method`: the tree of a method call.
- `evaluate_method`: a method call is the call with the receiver for its first argument.
-/

namespace PixelCalc

/-- The expression is an operation, so that an operator stands outside all of its brackets. -/
def Expr.isOperation : Expr → Bool
  | .operation _ _ _ => true
  | _ => false

/-! ### Folding -/

namespace Folding

variable {tier : Tier} {passed items inner out rest rest' : List Item} {e : Expr}

theorem isOperation_operation (op : Operator) (left right : Expr) :
    (operation op left right).isOperation = true := by
  unfold operation
  split <;> rfl

/-- An operator that a pass folds leaves an operation, so where none is left the pass has folded
nothing. -/
theorem Pass.eq_of_no_operation (h : Pass tier passed items out)
    (hout : ∀ e, .expr e ∈ out → e.isOperation = false) : out = passed.reverse ++ items := by
  induction h with
  | done => rw [List.append_nil]
  | @skip passed rest out item _ _ ih => rw [ih hout, List.reverse_cons, ← List.append_cons]
  | @fold passed passed' rest rest' out op left right _ _ _ _ ih =>
    have hmem : .expr (operation op left right) ∈ out := by
      rw [ih hout]
      simp
    have hno := hout _ hmem
    rw [isOperation_operation] at hno
    cases hno

/-- No tier folds anything in what comes to an expression that is no operation. -/
theorem foldTiers_single {tiers : List Tier} (h : foldTiers tiers items = .ok [.expr e])
    (he : e.isOperation = false) : items = [.expr e] := by
  have hout {e' : Expr} (h : Item.expr e' ∈ [Item.expr e]) : e'.isOperation = false := by
    cases List.mem_singleton.mp h
    exact he
  induction tiers generalizing items with
  | nil =>
    cases h
    rfl
  | cons tier more ih =>
    obtain ⟨items', hpass, h⟩ := foldTiers_cons_iff.mp h
    cases ih h
    exact (hpass.eq_of_no_operation fun _ => hout).symm

/-- An expression that is no operation is made by its calls alone. -/
theorem foldSegment_single (h : foldSegment items = .ok [.expr e]) (he : e.isOperation = false) :
    foldCalls [] items = .ok [.expr e] := by
  unfold foldSegment at h
  split at h
  · rename_i out hout
    rw [hout, foldTiers_single h he]
  · cases h

/-- Folding calls goes on behind the items that it has folded. -/
theorem foldCalls_append (h : foldCalls passed items = .ok out) (rest : List Item) :
    foldCalls passed (items ++ rest) = foldCalls out.reverse rest := by
  fun_induction foldCalls passed items with
  | case1 passed =>
    cases h
    rw [List.reverse_reverse, List.nil_append]
  | case2 passed first more items passed' hplace ih =>
    rw [List.cons_append, foldCalls, hplace]
    exact ih h
  | case3 => cases h
  | case4 passed item items hitem ih =>
    rw [List.cons_append, foldCalls]
    · exact ih h
    · exact hitem

theorem resolveItems_append (h : resolveItems items = .ok inner)
    (hrest : resolveItems rest = .ok rest') : resolveItems (items ++ rest) = .ok (inner ++ rest') := by
  induction items generalizing inner with
  | nil =>
    cases resolveItems_nil_inv h
    exact hrest
  | cons item items ih =>
    -- only a group is resolved, any other item is handed on
    by_cases hitem : ∃ first more, item = .expr (.group first more)
    · obtain ⟨first, more, rfl⟩ := hitem
      obtain ⟨inner', folded, segments, items', hinner', hfold, hsegments, hitems, rfl⟩ :=
        resolveItems_group_inv h
      rw [List.cons_append, resolveItems, hinner']
      show (foldSegment inner' >>= _) = _
      rw [hfold, hsegments, ih hitems]
      rfl
    · have hitem (first : List Item) (more : List (List Item)) :
          item ≠ .expr (.group first more) := fun heq => hitem ⟨first, more, heq⟩
      obtain ⟨items', hitems, rfl⟩ := resolveItems_cons_inv hitem h
      rw [List.cons_append, resolveItems, ih hitems]
      · rfl
      · exact hitem

/-- The receiver is the first argument of the call, as it stands. -/
theorem folds_method (f : String) {g folded : Group} (h : Folds items e)
    (he : e.isOperation = false)
    (hg : resolveItems [.expr g.toExpr] = .ok [.expr folded.toExpr]) :
    Folds (items ++ [Item.dot, .expr (.name f), .expr g.toExpr])
      (.call f (e :: arguments folded.first folded.more)) := by
  obtain ⟨inner, hinner, hfold⟩ := bind_eq_ok h
  -- the receiver is a single tree after the calls, so the dot behind it takes all of it
  have hcalls := foldSegment_single hfold he
  have hbehind : resolveItems [.dot, .expr (.name f), .expr g.toExpr] =
      .ok [.dot, .expr (.name f), .expr folded.toExpr] := by
    rw [resolveItems, resolveItems, hg]
    · rfl
    · simp
    · simp
  unfold Folds
  rw [resolveItems_append hinner hbehind]
  show foldSegment _ = _
  unfold foldSegment
  rw [foldCalls_append hcalls]
  rfl

end Folding

/-! ### Reading -/

namespace Nesting

/-- A level that closes without a comma holds just its items. -/
theorem Level.eq_of_close {level : Level} {items : List Item} (h : level.close = ⟨items, []⟩) :
    level = ⟨[], items⟩ := by
  obtain ⟨ended, current⟩ := level
  cases ended with
  | nil =>
    cases h
    rfl
  | cons first more => exact absurd (congrArg Group.more h) (by simp [Level.close])

end Nesting

namespace Reads

open Scan Nesting

variable {cs cs' : List Char} {items : List Item} {g : Group}

/-- A dot between spaces is a dot, not part of a number. -/
theorem scan_dot (afterValue : Bool) (behind : List Char) :
    scan afterValue (' ' :: '.' :: ' ' :: behind) =
      ⟨.dot :: (scan false behind).tokens, (scan false behind).error?⟩ := by
  have hdot : next afterValue ('.' :: ' ' :: behind) = .token .dot (' ' :: behind) := rfl
  rw [scan_space, scan_of_token hdot, scan_space]
  rfl

theorem method {f : String} (hf : isName f = true) (h : Reads cs ⟨items, []⟩) (h' : Reads cs' g) :
    Reads (cs ++ ' ' :: '.' :: ' ' :: (f.toList ++ '(' :: (cs' ++ [')'])))
      ⟨items ++ [Item.dot, .expr (.name f), .expr g.toExpr], []⟩ := by
  obtain ⟨tokens, hscan, hnest⟩ := h
  obtain ⟨tokens', hscan', hnest'⟩ := h'
  refine ⟨tokens ++ Token.dot :: .name f :: .opening .round ::
    (tokens' ++ [Token.closing .round]), ?_, ?_⟩
  · have hends : Ends (' ' :: '.' :: ' ' :: (f.toList ++ '(' :: (cs' ++ [')']))) :=
      ends_cons_iff.mpr (by decide)
    rw [scan_append hends hscan, scan_dot, scan_name hf false (ends_cons_iff.mpr (by decide)),
      scan_round hscan', scan_nil]
  -- nesting has read the receiver into one open level when the dot comes
  · obtain ⟨final, hfinal, hrun⟩ := nestFrom_after [] [] hnest
    cases Level.eq_of_close hfinal
    show nestFrom (Level.start.after []) [] _ = _
    rw [hrun, nestFrom, nestFrom, nestFrom_round hnest']
    simp [nestFrom, Level.after, Level.push, Level.close]

/-- Nothing is read as brackets that hold nothing. -/
theorem empty : Reads [] ⟨[], []⟩ :=
  ⟨[], scan_nil false, rfl⟩

end Reads

/-! ### Trees -/

open Folding

variable {f receiver : String} {sources : List String} {e : Expr} {es : List Expr}

/-- Sources between brackets are the arguments of a call, be there none, one or several. -/
theorem exists_arguments (h : sources.map parse = es.map .ok) :
    ∃ g folded : Group, Reads (", ".intercalate sources).toList g ∧
      resolveItems [.expr g.toExpr] = .ok [.expr folded.toExpr] ∧
      arguments folded.first folded.more = es.map fun e => .group [.expr e] [] := by
  cases sources with
  | nil =>
    cases List.map_eq_nil_iff.mp h.symm
    refine ⟨⟨[], []⟩, ⟨[], []⟩, .empty, ?_, rfl⟩
    show resolveItems [.expr (.group [] [])] = _
    simp only [resolveItems, resolveSegments]
    rfl
  | cons source sources =>
    obtain ⟨e, es, rfl, he, hmore⟩ := List.map_eq_cons_iff.mp h.symm
    obtain ⟨first, more, hreads, hfirst, hmore⟩ := exists_segments he.symm hmore.symm
    refine ⟨⟨first, more⟩, ⟨[.expr e], es.map fun e => [.expr e]⟩, hreads,
      resolveItems_last hfirst hmore, arguments_segments e es⟩

/-- The tree of a method call. -/
theorem parse_method (hf : isName f = true) (hreceiver : parse receiver = .ok e)
    (he : e.isOperation = false) (h : sources.map parse = es.map .ok) :
    parse (receiver ++ " . " ++ f ++ "(" ++ ", ".intercalate sources ++ ")") =
      .ok (.call f (e :: es.map fun e => .group [.expr e] [])) := by
  obtain ⟨items, hreads, hfolds⟩ := parse_iff.mp hreceiver
  obtain ⟨g, folded, hreads', hresolve, harguments⟩ := exists_arguments h
  rw [← harguments]
  refine parse_iff.mpr ⟨_, ?_, folds_method f hfolds he hresolve⟩
  have htext : (receiver ++ " . " ++ f ++ "(" ++ ", ".intercalate sources ++ ")").toList =
      receiver.toList ++ ' ' :: '.' :: ' ' :: (f.toList ++
        '(' :: ((", ".intercalate sources).toList ++ [')'])) := by
    simp
  rw [htext]
  exact hreads.method hf hreads'

/-- **A method call is a call.** Where the receiver has a tree with no operator on top, be it a
number, a name, brackets, a call or another method call, and all arguments have trees, the method
call has the value and the effect of the call with the receiver for its first argument: receiver and
arguments are evaluated one after the other, and the function is applied to their values. The method
call may be a receiver in turn. -/
theorem evaluate_method (f receiver : String) (sources : List String) (e : Expr)
    (hf : isName f = true) (hreceiver : parse receiver = .ok e) (he : e.isOperation = false)
    (hsources : ∀ source ∈ sources, ∃ e, parse source = .ok e) :
    let method := receiver ++ " . " ++ f ++ "(" ++ ", ".intercalate sources ++ ")"
    let call := f ++ "(" ++ ", ".intercalate (receiver :: sources) ++ ")"
    (∀ env, evaluate env method = evaluate env call) ∧
      (∀ env, evaluate env call =
        let args := evaluateEach env (receiver :: sources)
        (args.2.call f args.1, args.2)) ∧
      ∃ e', parse method = .ok e' ∧ e'.isOperation = false := by
  intro method call
  obtain ⟨es, hes⟩ := exists_trees hsources
  have hall : (receiver :: sources).map parse = (e :: es).map .ok := by
    rw [List.map_cons, hreceiver, hes, List.map_cons]
  have hmethod := parse_method hf hreceiver he hes
  have hcall := parse_call hf (List.cons_ne_nil _ _) hall
  refine ⟨fun env => ?_, fun env => ?_, _, hmethod, rfl⟩
  · -- the trees differ in the receiver, which stands in brackets in the one of the call
    rw [evaluate_of_parse hmethod, evaluate_of_parse hcall, Expr.eval, Expr.eval, List.map_cons,
      evalAll, evalAll, eval_brackets]
  · rw [evaluate_of_parse hcall, Expr.eval, evalAll_brackets hall]

/-- The sign belongs to the receiver, as it does to the argument. -/
theorem evaluate_method_signed :
    parse "-1" = .ok (.number (-1)) ∧ parse "y" = .ok (.name "y") ∧ isName "Max" = true ∧
      ∀ env, evaluate env "-1 . Max(y)" = evaluate env "Max(-1, y)" := by
  have hone : parse "-1" = .ok (.number (-1)) := by
    have hnumber : Scan.next false "-1".toList = .token (.number (-1)) [] := rfl
    have hscan : Scan.scan false "-1".toList = ⟨[.number (-1)], none⟩ := by
      rw [Scan.scan_of_token hnumber, Scan.scan_nil]
    refine parse_iff.mpr ⟨[.expr (.number (-1))], ⟨_, hscan, rfl⟩, ?_⟩
    unfold Folds
    rw [resolveItems_of_no_group (by simp)]
    rfl
  have hy : parse "y" = .ok (.name "y") := parse_name (by decide +kernel)
  have hmax : isName "Max" = true := by
    decide +kernel
  have htrees : ∀ source ∈ ["y"], ∃ e, parse source = .ok e :=
    List.forall_mem_singleton.mpr ⟨_, hy⟩
  exact ⟨hone, hy, hmax, (evaluate_method "Max" "-1" ["y"] _ hmax hone rfl htrees).1⟩

end PixelCalc
