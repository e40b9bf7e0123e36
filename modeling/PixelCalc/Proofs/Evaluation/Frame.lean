import PixelCalc.Proofs.Evaluation.Internal
import PixelCalc.Proofs.Evaluation.Preservation
import PixelCalc.Proofs.Syntax.Placement

/-!
# What an evaluation leaves alone

Assignments are the only expressions with an effect, and the name they bind is the one that stands
on the left of `=` in the source: no value in circulation is a reference to another name. All other
variables keep their values, and no variable takes a fault for its value.

- `Occurs`: one expression stands somewhere in another.
- `assigned_of_target_mem`: the targets that an evaluation meets stand on the left of `=`.
- `Frame`: what an environment has in common with an earlier one, given the names in between that
  may have been assigned to; `preserved_frame` says that single steps keep it.
- `evaluate_frame`: what the evaluation of a source leaves alone.
-/

namespace PixelCalc

/-! ### Assignments in a tree -/

/-- `a` stands somewhere in an expression, be it in brackets that have no value. -/
inductive Occurs (a : Expr) : Expr → Prop
  | self : Occurs a a
  | first {e : Expr} {first : List Item} {more : List (List Item)} (hmem : .expr e ∈ first)
      (h : Occurs a e) : Occurs a (.group first more)
  | more {e : Expr} {segment first : List Item} {more : List (List Item)}
      (hsegment : segment ∈ more) (hmem : .expr e ∈ segment) (h : Occurs a e) :
      Occurs a (.group first more)
  | left {op : Operator} {left right : Expr} (h : Occurs a left) :
      Occurs a (.operation op left right)
  | right {op : Operator} {left right : Expr} (h : Occurs a right) :
      Occurs a (.operation op left right)
  | argument {e : Expr} {n : String} {arguments : List Expr} (hmem : e ∈ arguments)
      (h : Occurs a e) : Occurs a (.call n arguments)

/-- An assignment to the name stands somewhere in the expression. -/
def AssignedIn (e : Expr) (n : String) : Prop :=
  ∃ right, Occurs (.operation .assign (.target n) right) e

theorem AssignedIn.within {e e' : Expr} {n : String} (h : AssignedIn e n)
    (hwithin : ∀ {a}, Occurs a e → Occurs a e') : AssignedIn e' n := by
  obtain ⟨right, hoccurs⟩ := h
  exact ⟨right, hwithin hoccurs⟩

theorem mem_evaluatedAll {e : Expr} {arguments : List Expr} (h : e ∈ evaluatedAll arguments) :
    ∃ a ∈ arguments, e ∈ a.evaluated := by
  induction arguments with
  | nil => cases h
  | cons a rest ih =>
    rcases List.mem_append.mp h with h | h
    · exact ⟨a, List.mem_cons_self, h⟩
    · obtain ⟨b, hb, h⟩ := ih h
      exact ⟨b, .tail _ hb, h⟩

/-- What is evaluated with an expression, but is not the expression itself, is among its parts. -/
theorem mem_parts {a e : Expr} {parts : List Expr} (h : a ∈ parts ++ [e]) (hne : e ≠ a) :
    a ∈ parts := by
  rcases List.mem_append.mp h with h | h
  · exact h
  · exact absurd (List.mem_singleton.mp h).symm hne

/-- The targets that an evaluation meets are those of assignments. -/
theorem assigned_of_target_mem {e : Expr} {n : String} (he : Placed e)
    (h : .target n ∈ e.evaluated) : AssignedIn e n := by
  induction e using Expr.inductEvaluated with
  | number | nothing | name => cases List.mem_singleton.mp h
  | target => cases he
  | malformed e fault hmalformed =>
    rw [evaluated_malformed hmalformed] at h
    cases List.mem_singleton.mp h
    cases hmalformed
  | brackets e ih =>
    cases he with
    | group hsegments =>
      have hmem : Item.expr e ∈ [Item.expr e] := List.mem_cons_self
      have he := hsegments _ List.mem_cons_self e hmem
      exact (ih he (mem_parts h nofun)).within (.first hmem)
  | operation op left right ihl ihr =>
    have hside := List.mem_append.mp (mem_parts h nofun)
    cases he with
    | operation hl hr =>
      rcases hside with hside | hside
      · cases hl with
        | operand hl => exact (ihl hl hside).within .left
        | target =>
          -- on the left stands a target alone, and this is its assignment
          cases List.mem_singleton.mp hside
          exact ⟨right, .self⟩
        | power | range => cases List.mem_singleton.mp hside
      · cases hr with
        | operand hr => exact (ihr hr hside).within .right
        | range => cases List.mem_singleton.mp hside
  | call m arguments ih =>
    cases he with
    | call harguments =>
      obtain ⟨a, ha, h⟩ := mem_evaluatedAll (mem_parts h nofun)
      exact (ih a ha (harguments a ha) h).within (.argument ha)

/-! ### References -/

/-- Only an assignment may be a reference, and then its right operand is that reference. -/
theorem Operator.compute_reference {op : Operator} {left right : Value} {n : String}
    (h : op.compute left right = .reference n) : right = .reference n := by
  have hinternal : (op.compute left right).Internal := by
    rw [h]
    trivial
  rw [← h]
  exact (op.compute_internal hinternal).2.symm

theorem Builtin.invoke_ne_reference (f : Builtin) (args : List Value) (n : String) :
    f.invoke args ≠ .reference n := by
  intro h
  have hinternal := f.invoke_not_internal args
  rw [h] at hinternal
  exact hinternal trivial

/-! ### Frames -/

/-- What an environment has in common with an earlier one, if only `names` have been
assigned to in between. -/
structure Frame (before : Environment) (names : String → Prop) (env : Environment) : Prop where
  functions : env.functions = before.functions
  others : ∀ name, ¬ names name → env.find? name = before.find? name
  kept : ∀ name, before.find? name ≠ none → env.find? name ≠ none
  faults : ∀ name fault, env.find? name = some (.error fault) →
    before.find? name = some (.error fault)
  references : ∀ name n, env.find? name = some (.reference n) → names n

/-- If the value is a reference, it is one to one of `names`. -/
def RefersTo (names : String → Prop) (v : Value) : Prop :=
  ∀ n, v = .reference n → names n

variable {before env : Environment} {names : String → Prop}

theorem Frame.bind (h : Frame before names env) {name : String} {v : Value}
    (hname : names name) (hfault : ∀ fault, v ≠ .error fault) (hv : RefersTo names v) :
    Frame before names (env.bind name v) := by
  refine ⟨h.functions, ?_, ?_, ?_, ?_⟩
  · intro other hother
    have hne : other ≠ name := fun heq => hother (heq ▸ hname)
    rw [Environment.find?_bind_other env hne]
    exact h.others other hother
  · intro other hother
    by_cases hne : other = name
    · rw [hne, Environment.find?_bind_self]
      exact Option.some_ne_none v
    · rw [Environment.find?_bind_other env hne]
      exact h.kept other hother
  · intro other fault hother
    rcases Environment.find?_bind_cases hother with ⟨-, heq⟩ | hother
    · exact absurd heq (hfault fault)
    · exact h.faults other fault hother
  · intro other n hother
    rcases Environment.find?_bind_cases hother with ⟨-, heq⟩ | hother
    · exact hv n heq
    · exact h.references other n hother

/-- An operation writes to one of the names of the frame, or not at all. -/
theorem Frame.assigned (h : Frame before names env) (op : Operator) {left right : Value}
    (hl : RefersTo names left) (hr : RefersTo names right) :
    Frame before names (env.assigned op left right) := by
  unfold Environment.assigned
  split
  · exact h
  · rename_i hfault
    exact h.bind (hl _ rfl) hfault hr
  · exact h

/-- Single steps keep a frame, if the functions of the environment return no references. -/
theorem preserved_frame (hfunctions : ∀ name f, before.functions.find? name = some f →
      ∀ args n, f args ≠ .reference n) :
    Preserved (Frame before names) (RefersTo names) where
  number _ _ := nofun
  nothing _ := nofun
  fault _ _ := nofun
  name {env} m h n hn := by
    unfold Environment.value at hn
    cases hm : env.find? m with
    | none =>
      rw [hm] at hn
      cases hn
    | some v =>
      rw [hm] at hn
      exact h.references m n (hm.trans (congrArg some hn))
  compute _ _ _ _ hr n hn := hr n (Operator.compute_reference hn)
  assigned op _ _ h hl hr := h.assigned op hl hr
  call {env} m args h _ n hn := by
    unfold Environment.call Environment.function? at hn
    cases hm : Builtin.ofName? m with
    | some f =>
      rw [hm] at hn
      exact absurd hn (f.invoke_ne_reference args n)
    | none =>
      rw [hm, h.functions] at hn
      cases hf : before.functions.find? m with
      | some f =>
        rw [hf] at hn
        exact absurd hn (hfunctions m f hf args n)
      | none =>
        rw [hf] at hn
        cases hn

/-- An environment without references is in its own frame. -/
theorem frame_self (hvalues : ∀ name n, env.find? name ≠ some (.reference n)) :
    Frame env names env :=
  ⟨rfl, fun _ _ => rfl, fun _ h => h, fun _ _ h => h, fun name n h => absurd h (hvalues name n)⟩

/-- An evaluation stays in the frame of the names that the source assigns to. -/
theorem eval_frame (hvalues : ∀ name n, env.find? name ≠ some (.reference n))
    (hfunctions : ∀ name f, env.functions.find? name = some f → ∀ args n, f args ≠ .reference n)
    {e : Expr} (he : Placed e) : Frame env (AssignedIn e) (e.eval env).2 := by
  have htargets : TargetsGood (RefersTo (AssignedIn e)) e.evaluated := by
    intro n hmem m hm
    cases hm
    exact assigned_of_target_mem he hmem
  exact ((preserved_frame hfunctions).eval e htargets (frame_self hvalues)).environment

/-- **The frame of an evaluation.** Where no variable holds a reference and no function returns one,
the evaluation of a source that has no tree changes nothing; otherwise it changes none but the
variables that stand on the left of `=` in the tree, removes none, and gives none a fault for its
value. -/
theorem evaluate_frame (env : Environment) (source : String)
    (hvalues : ∀ name n, env.find? name ≠ some (.reference n))
    (hfunctions : ∀ name f, env.functions.find? name = some f →
      ∀ args n, f args ≠ .reference n) :
    (∀ error, parse source = .error error → (evaluate env source).2 = env) ∧
    (∀ e, parse source = .ok e → ∀ name,
      (∀ right, ¬ Occurs (.operation .assign (.target name) right) e) →
      (evaluate env source).2.find? name = env.find? name) ∧
    (∀ name, env.find? name ≠ none → (evaluate env source).2.find? name ≠ none) ∧
    ((∀ name fault, env.find? name ≠ some (.error fault)) →
      ∀ name fault, (evaluate env source).2.find? name ≠ some (.error fault)) := by
  cases hparse : parse source with
  | error error =>
    have heval : (evaluate env source).2 = env := by
      rw [evaluate, hparse]
    rw [heval]
    exact ⟨fun _ _ => rfl, fun _ => nofun, fun _ h => h, fun h => h⟩
  | ok e =>
    have heval : (evaluate env source).2 = (e.eval env).2 := by
      rw [evaluate, hparse]
    have hframe := eval_frame hvalues hfunctions (parse_placed hparse)
    rw [heval]
    refine ⟨fun _ => nofun, ?_, hframe.kept, ?_⟩
    · intro e' he' name hname
      cases he'
      exact hframe.others name fun ⟨right, hoccurs⟩ => hname right hoccurs
    · intro hfaults name fault h
      exact hfaults name fault (hframe.faults name fault h)

/-- A variable that a failed assignment does not touch. -/
theorem evaluate_frame_failed :
    let env := Environment.empty.bind "z" (.number 1)
    (∀ name n, env.find? name ≠ some (.reference n)) ∧
      (∀ name f, env.functions.find? name = some f → ∀ args n, f args ≠ .reference n) ∧
      (evaluate env "z = missing").2.find? "z" ≠ none ∧
      ∀ name fault, (evaluate env "z = missing").2.find? name ≠ some (.error fault) := by
  intro env
  have hbound {name : String} {v : Value} (h : env.find? name = some v) : v = .number 1 := by
    rcases Environment.find?_bind_cases h with ⟨-, heq⟩ | h
    · exact heq.symm
    · cases h
  have hvalues : ∀ name n, env.find? name ≠ some (.reference n) :=
    fun _ _ h => Value.noConfusion (hbound h)
  have hfunctions : ∀ name f, env.functions.find? name = some f → ∀ args n, f args ≠ .reference n :=
    fun _ _ => nofun
  obtain ⟨-, -, hkept, hfaults⟩ := evaluate_frame env "z = missing" hvalues hfunctions
  exact ⟨hvalues, hfunctions, hkept "z" (by rw [Environment.find?_bind_self]; nofun),
    hfaults fun _ _ h => Value.noConfusion (hbound h)⟩

end PixelCalc
