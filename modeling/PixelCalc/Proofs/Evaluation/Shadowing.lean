import PixelCalc.Proofs.Evaluation.Composition
import PixelCalc.Proofs.Evaluation.Lockstep
import PixelCalc.Proofs.Syntax.Casing

/-!
# Built-in functions are not shadowed

A name that is the one of a built-in function, in whatever case, calls that function, whichever
functions are registered. So a source that calls no others has the same value with them as without,
and the case of the names that it calls is of no account.

- `canonical`: one name for all cases of the name of a built-in function.
- `eval_of_rename`: trees that become the same under these names have the same value and effect, if
  their operands are the same.
- `evaluate_recased`: so have sources that differ in the case of called names.
- `evaluate_not_shadowed`: registered functions and the case of names change nothing.
-/

namespace PixelCalc

/-! ### Names of built-in functions -/

/-- Built-in functions are found under their names in any case. -/
theorem ofName?_congr {n n' : String} (h : n.toLower = n'.toLower) :
    Builtin.ofName? n = Builtin.ofName? n' := by
  unfold Builtin.ofName? Text.sameLetters
  rw [h]

/-- The name of a built-in function, in whatever case, finds one. -/
theorem ofName?_ne_none {f : Builtin} {n : String} (h : Text.sameLetters f.name n = true) :
    Builtin.ofName? n ≠ none := by
  have hlower : f.name.toLower = n.toLower := beq_iff_eq.mp h
  rw [← ofName?_congr hlower, Builtin.ofName?_name]
  nofun

/-- The name of a built-in function for all the cases in which it may be written; every other name
for itself. -/
def canonical (n : String) : String :=
  match Builtin.ofName? n with
  | some f => f.name
  | none => n

theorem canonical_indexFunction : canonical indexFunction = indexFunction := by
  have hindex : Builtin.ofName? indexFunction = some .subMat := Builtin.ofName?_name .subMat
  unfold canonical
  rw [hindex]
  rfl

/-- The canonical name calls the same function. -/
theorem ofName?_canonical (n : String) : Builtin.ofName? (canonical n) = Builtin.ofName? n := by
  unfold canonical
  cases h : Builtin.ofName? n with
  | some f => exact Builtin.ofName?_name f
  | none => exact h

/-- Names that stand for the same call the same function. -/
theorem call_of_canonical {n n' : String} (h : canonical n = canonical n') (env : Environment)
    (args : List Value) : env.call n args = env.call n' args := by
  have hbuiltin : Builtin.ofName? n = Builtin.ofName? n' := by
    rw [← ofName?_canonical n, h, ofName?_canonical]
  unfold canonical at h
  unfold Environment.call Environment.function?
  rw [hbuiltin] at h ⊢
  cases hn : Builtin.ofName? n' with
  | some f => rfl
  | none =>
    rw [hn] at h
    cases h
    rfl

/-- Two cases of the name of a built-in function have one canonical name. -/
theorem canonical_of_toLower {n n' : String} (hn : Builtin.ofName? n ≠ none)
    (h : n'.toLower = n.toLower) : canonical n' = canonical n := by
  obtain ⟨f, hf⟩ := Option.ne_none_iff_exists'.mp hn
  unfold canonical
  rw [ofName?_congr h, hf]

/-! ### Trees -/

/-- The name of a token that is one. -/
def Token.name? : Token → Option String
  | .name n => some n
  | _ => none

/-- Supplied operands have no names, so the names of the leaves are those of the operands. -/
theorem Written.names {leaves : List Leaf} {tokens : List Token} (h : Written leaves tokens) :
    leaves.filterMap Leaf.name? = tokens.filterMap Token.name? := by
  induction h with
  | nil => rfl
  | number x _ ih | base x _ ih | zero _ ih | nothing _ ih => exact ih
  | name n _ ih => exact congrArg (n :: ·) ih

/-- The names of an operation are those of its operands, the target of an assignment included. -/
theorem leafNames_operation (op : Operator) (left right : Expr) :
    (Expr.operation op left right).leafNames = left.leafNames ++ right.leafNames := by
  unfold Expr.leafNames
  rw [Expr.leaves, List.filterMap_append]
  congr 1
  unfold asLeft
  split <;> rfl

theorem leafNames_brackets (e : Expr) : (Expr.group [.expr e] []).leafNames = e.leafNames := by
  unfold Expr.leafNames
  show (e.leaves ++ [] ++ []).filterMap Leaf.name? = _
  rw [List.append_nil, List.append_nil]

/-- An exchange of names keeps the number of items between brackets. -/
theorem single_of_rename {ρ : String → String} {e : Expr} {item : Item}
    (h : e.rename ρ = .group [item] []) :
    ∃ item', e = .group [item'] [] ∧ item'.rename ρ = item := by
  cases e with
  | group first more =>
    obtain ⟨hfirst, hmore⟩ := Expr.group.inj h
    cases more with
    | cons => cases hmore
    | nil =>
      obtain _ | ⟨item', _ | ⟨second, rest⟩⟩ := first
      · cases hfirst
      · exact ⟨item', rfl, (List.cons.inj hfirst).1⟩
      · cases hfirst
  | _ => cases h

/-- Whether brackets have a value does not depend on names, and neither does their fault. -/
theorem Malformed.rename {e : Expr} {fault : Fault} (h : Malformed e fault) (ρ : String → String) :
    Malformed (e.rename ρ) fault := by
  cases h with
  | empty => exact .empty
  | operator op => exact .operator op
  | dot => exact .dot
  | several h =>
    refine .several ?_
    simpa [renameItems_eq_map, renameSegments_eq_map] using h

/-- What is malformed after an exchange of names was so before, in the same way. -/
theorem Malformed.of_rename {ρ : String → String} {e : Expr} {fault : Fault}
    (h : Malformed (e.rename ρ) fault) : Malformed e fault := by
  -- the cases are about the renamed tree; each is traced back to the tree that it came from
  generalize he : e.rename ρ = renamed at h
  cases h with
  | empty =>
    cases e with
    | group first more =>
      cases first <;> cases more <;> cases he
      exact .empty
    | _ => cases he
  | operator op =>
    obtain ⟨item, rfl, hitem⟩ := single_of_rename he
    cases item <;> cases hitem
    exact .operator op
  | dot =>
    obtain ⟨item, rfl, hitem⟩ := single_of_rename he
    cases item <;> cases hitem
    exact .dot
  | several h =>
    cases e with
    | group first more =>
      cases he
      refine .several ?_
      simpa [renameItems_eq_map, renameSegments_eq_map] using h
    | _ => cases he

/-- Trees that are equal up to names have as many names. -/
theorem length_leafNames {ρ : String → String} {e e' : Expr} (h : e'.rename ρ = e.rename ρ) :
    e'.leafNames.length = e.leafNames.length := by
  have hnames := congrArg Expr.leafNames h
  rw [leafNames_rename, leafNames_rename] at hnames
  simpa using congrArg List.length hnames

/-- Arguments that are equal up to the case of called names have equal values, if each of them does.
-/
theorem evalAll_of_rename {arguments arguments' : List Expr}
    (h : ∀ a ∈ arguments, ∀ a' : Expr, a'.rename canonical = a.rename canonical →
      a'.leafNames = a.leafNames → ∀ env, a'.eval env = a.eval env)
    (hrename : renameAll canonical arguments' = renameAll canonical arguments)
    (hnames : (exprLeaves arguments').filterMap Leaf.name? =
      (exprLeaves arguments).filterMap Leaf.name?) (env : Environment) :
    evalAll env arguments' = evalAll env arguments := by
  -- Induction on both lists at once; the names of the first arguments are cut off by their number.
  induction arguments generalizing arguments' env with
  | nil =>
    cases arguments' with
    | nil => rfl
    | cons => cases hrename
  | cons a rest ih =>
    cases arguments' with
    | nil => cases hrename
    | cons a' rest' =>
      obtain ⟨ha, hrest⟩ := List.cons.inj hrename
      rw [exprLeaves, exprLeaves, List.filterMap_append, List.filterMap_append] at hnames
      obtain ⟨hfirst, hmore⟩ := List.append_inj hnames (length_leafNames ha)
      rw [evalAll, evalAll, h a List.mem_cons_self a' ha hfirst,
        ih (fun b hb => h b (.tail _ hb)) hrest hmore]

/-- Trees that differ in the names they call, but not in the functions that these stand for, have the
same value and effect. -/
theorem eval_of_rename {e e' : Expr} (h : e'.rename canonical = e.rename canonical)
    (hnames : e'.leafNames = e.leafNames) (env : Environment) : e'.eval env = e.eval env := by
  induction e using Expr.inductEvaluated generalizing e' env with
  | number x => cases e' <;> cases h; rfl
  | nothing => cases e' <;> cases h; rfl
  | name n =>
    cases e' with
    | name n' =>
      have hn : [n'] = [n] := hnames
      cases hn
      rfl
    | _ => cases h
  | target n =>
    cases e' with
    | target n' =>
      have hn : [n'] = [n] := hnames
      cases hn
      rfl
    | _ => cases h
  | malformed e fault hmalformed =>
    rw [eval_malformed hmalformed,
      eval_malformed (Malformed.of_rename (h ▸ hmalformed.rename canonical))]
  | brackets e ih =>
    obtain ⟨item, rfl, hitem⟩ := single_of_rename h
    cases item with
    | expr a =>
      rw [leafNames_brackets, leafNames_brackets] at hnames
      exact ih (Item.expr.inj hitem) hnames env
    | _ => cases hitem
  | operation op left right ihl ihr =>
    cases e' with
    | operation op' left' right' =>
      obtain ⟨rfl, hleft, hright⟩ := Expr.operation.inj h
      rw [leafNames_operation, leafNames_operation] at hnames
      -- other names are as many, so the operands' names part where they do in the other tree
      obtain ⟨hl, hr⟩ := List.append_inj hnames (length_leafNames hleft)
      rw [Expr.eval, Expr.eval, ihl hleft hl, ihr hright hr]
    | _ => cases h
  | call n arguments ih =>
    cases e' with
    | call n' arguments' =>
      obtain ⟨hn, harguments⟩ := Expr.call.inj h
      rw [Expr.eval, Expr.eval, evalAll_of_rename (fun a ha a' => @ih a ha a') harguments hnames,
        call_of_canonical hn]
    | _ => cases h

/-- Sources that differ in the case of the names they call have the same value and the same effect,
if these are names of built-in functions. -/
theorem evaluate_recased {source source' : String} {e : Expr} (h : parse source = .ok e)
    (hcalls : ∀ n ∈ e.calls, Builtin.ofName? n ≠ none)
    (hcase : lowerCalls source'.toList = lowerCalls source.toList) (env : Environment) :
    evaluate env source' = evaluate env source := by
  obtain ⟨tokens, htokens, hcarries⟩ := parse_carries h
  obtain ⟨tokens', htokens', hlower⟩ := tokenize_of_lowerCalls hcase htokens
  -- 1. the trees are equal up to the case of called names
  have htree : treeOf tokens = .ok e := by
    rw [parse_eq, htokens] at h
    exact h
  have hrename : tokens'.map (Token.rename canonical) = tokens.map (Token.rename canonical) :=
    rename_of_lowerCalled hlower fun n hn _ hn' =>
      canonical_of_toLower (hcalls n (hcarries.calls.mem_iff.mpr hn)) hn'
  have htrees : (treeOf tokens').map (Expr.rename canonical) = .ok (e.rename canonical) := by
    rw [← treeOf_rename canonical_indexFunction, hrename, treeOf_rename canonical_indexFunction,
      htree]
    rfl
  obtain ⟨e', htree', hrename'⟩ :
      ∃ e', treeOf tokens' = .ok e' ∧ e'.rename canonical = e.rename canonical := by
    cases htree' : treeOf tokens' with
    | ok e' =>
      rw [htree'] at htrees
      exact ⟨e', rfl, Except.ok.inj htrees⟩
    | error error =>
      rw [htree'] at htrees
      cases htrees
  have h' : parse source' = .ok e' := by
    rw [parse_eq, htokens']
    exact htree'
  -- 2. the names that are operands are the same ones
  have hnames : e'.leafNames = e.leafNames := by
    obtain ⟨_, hscanned, hcarries'⟩ := parse_carries h'
    cases htokens'.symm.trans hscanned
    unfold Expr.leafNames
    rw [hcarries'.leaves.names, operands_of_lowerCalled hlower, ← hcarries.leaves.names]
  rw [evaluate_of_parse h', evaluate_of_parse h, eval_of_rename hrename' hnames]

/-! ### Registered functions -/

/-- Adds functions under their names, one after the other. -/
def Environment.registerAll (env : Environment)
    (registrations : List (String × (List Value → Value))) : Environment :=
  registrations.foldl (fun env r => env.register r.1 r.2) env

theorem values_registerAll (env : Environment)
    (registrations : List (String × (List Value → Value))) :
    (env.registerAll registrations).values = env.values := by
  induction registrations generalizing env with
  | nil => rfl
  | cons r registrations ih => exact ih (env.register r.1 r.2)

/-- Environments with the same variables call the same built-in functions. -/
theorem inStep_values : InStep (fun env env' => env.values = env'.values) (fun _ => True)
    (fun n => Builtin.ofName? n ≠ none) where
  value h n _ := by
    unfold Environment.value Environment.find?
    rw [h]
  call _ n hn args := by
    obtain ⟨f, hf⟩ := Option.ne_none_iff_exists'.mp hn
    unfold Environment.call Environment.function?
    rw [hf]
  bind h n v := by
    unfold Environment.bind
    rw [h]

/-- **Built-in functions are not shadowed.** A source that calls names of built-in functions only,
in whatever case, has the same value and leaves the same variables whichever functions are
registered; and in another case of these names it has that value and that effect, too. -/
theorem evaluate_not_shadowed {source : String} {e : Expr} (h : parse source = .ok e)
    (hcalls : ∀ n ∈ e.calls, ∃ f : Builtin, Text.sameLetters f.name n = true) (env : Environment) :
    (∀ registrations, (evaluate (env.registerAll registrations) source).1 = (evaluate env source).1 ∧
      (evaluate (env.registerAll registrations) source).2.values =
        (evaluate env source).2.values) ∧
    ∀ source', lowerCalls source'.toList = lowerCalls source.toList →
      evaluate env source' = evaluate env source := by
  have hbuiltin : ∀ n ∈ e.calls, Builtin.ofName? n ≠ none := fun n hn =>
    (hcalls n hn).elim fun _ hf => ofName?_ne_none hf
  refine ⟨fun registrations => ?_, fun source' hcase => evaluate_recased h hbuiltin hcase env⟩
  rw [evaluate_of_parse h, evaluate_of_parse h]
  have hreads : ReadsOnly (fun _ => True) (fun n => Builtin.ofName? n ≠ none) e.evaluated :=
    ⟨fun _ _ => trivial, fun n _ hmem => hbuiltin n (mem_calls_of_evaluated hmem)⟩
  exact inStep_values.eval e hreads (values_registerAll env registrations)

/-- A function registered as `aBs` is not the one that is called. -/
theorem evaluate_not_shadowed_index :
    let e : Expr := .call "SubMat"
      [.call "aBs" [.group [.expr (.name "x")] []], .group [.expr (.name "i")] []]
    let env := (Environment.empty.bind "x" (.number 2)).bind "i" (.number 0)
    let registered := env.registerAll [("aBs", fun _ => .nothing), ("SubMat", fun _ => .nothing)]
    parse "aBs(x)[i]" = .ok e ∧
      (∀ n ∈ e.calls, ∃ f : Builtin, Text.sameLetters f.name n = true) ∧
      lowerCalls "ABS(x)[i]".toList = lowerCalls "aBs(x)[i]".toList ∧
      (evaluate registered "aBs(x)[i]").1 = (evaluate env "aBs(x)[i]").1 ∧
      evaluate env "ABS(x)[i]" = evaluate env "aBs(x)[i]" := by
  intro e env registered
  have hscan : Scan.scan false "aBs(x)[i]".toList = ⟨[.name "aBs", .opening .round, .name "x",
      .closing .round, .opening .square, .name "i", .closing .square], none⟩ := by
    have habs : Scan.next false "aBs(x)[i]".toList = .token (.name "aBs") "(x)[i]".toList := rfl
    have hround : Scan.next (Token.name "aBs").endsValue "(x)[i]".toList =
        .token (.opening .round) "x)[i]".toList := rfl
    have hx : Scan.next (Token.opening .round).endsValue "x)[i]".toList =
        .token (.name "x") ")[i]".toList := rfl
    have hclosing : Scan.next (Token.name "x").endsValue ")[i]".toList =
        .token (.closing .round) "[i]".toList := rfl
    have hsquare : Scan.next (Token.closing .round).endsValue "[i]".toList =
        .token (.opening .square) "i]".toList := rfl
    have hi : Scan.next (Token.opening .square).endsValue "i]".toList =
        .token (.name "i") "]".toList := rfl
    have hend : Scan.next (Token.name "i").endsValue "]".toList = .token (.closing .square) [] := rfl
    rw [Scan.scan_of_token habs, Scan.scan_of_token hround, Scan.scan_of_token hx,
      Scan.scan_of_token hclosing, Scan.scan_of_token hsquare, Scan.scan_of_token hi,
      Scan.scan_of_token hend, Scan.scan_nil]
  have hparse : parse "aBs(x)[i]" = .ok e := by
    refine parse_iff.mpr ⟨[.expr (.name "aBs"), .expr (.group [.expr (.name "x")] []), .dot,
      .expr (.name "SubMat"), .expr (.group [.expr (.name "i")] [])], ⟨_, hscan, rfl⟩, ?_⟩
    unfold Folding.Folds
    simp only [Folding.resolveItems, Folding.resolveSegments]
    rfl
  have hcalls : ∀ n ∈ e.calls, ∃ f : Builtin, Text.sameLetters f.name n = true := by
    show ∀ n ∈ ["SubMat", "aBs"], _
    simp only [List.forall_mem_cons, List.not_mem_nil, false_implies, implies_true, and_true]
    exact ⟨⟨.subMat, Text.sameLetters_refl _⟩, ⟨.abs, Text.sameLetters_iff.mpr (by decide)⟩⟩
  have hletters : ∀ c ∈ "aBs".toList, Text.isAlphabetic c = true := List.all_eq_true.mp rfl
  have hcase : lowerCalls "ABS(x)[i]".toList = lowerCalls "aBs(x)[i]".toList :=
    @Scan.lowerCalls_recased "aBs".toList [] "ABS".toList 0 "x)[i]".toList hletters rfl
  obtain ⟨hregistered, hrecased⟩ := evaluate_not_shadowed hparse hcalls env
  exact ⟨hparse, hcalls, hcase, (hregistered _).1, hrecased _ hcase⟩

end PixelCalc
