import PixelCalc.Syntax.Nesting

/-!
# Brackets that match

Nesting builds groups while it reads, but whether it succeeds depends on the brackets alone. They
are told here by a scan that keeps nothing but the stack of the brackets that are open.

- `scanBrackets`: the brackets that are open after tokens, unless one on the way was closed by
  another kind or closed without being open.
- `nestFrom_step`, `nestFrom_run`: as long as no bracket offends, nesting goes on, and the brackets
  that it has interrupted are those that the scan has open.
- `exists_offence`: a scan that fails has met a first closing bracket that does not match.
- `nest_brackets`: nesting succeeds exactly if all brackets match, and fails with the error of the
  first bracket that does not.
-/

namespace PixelCalc
namespace Nesting

/-! ### The scan -/

/-- The open brackets after a token, the innermost first. A closing bracket has to match the
innermost one. -/
def stackAfter (stack : List Bracket) : Token → Option (List Bracket)
  | .opening b => some (b :: stack)
  | .closing b => if stack.head? = some b then some stack.tail else none
  | _ => some stack

/-- The open brackets after tokens, if no closing bracket among them fails to match. -/
def scanBrackets (stack : List Bracket) : List Token → Option (List Bracket)
  | [] => some stack
  | t :: rest => (stackAfter stack t).bind fun stack => scanBrackets stack rest

/-- The error of a closing bracket that does not match, given the open brackets. An open bracket
determines the closing one that was to be expected. -/
def offence (stack : List Bracket) (found : Bracket) : SyntaxError :=
  match stack with
  | [] => .unopened found
  | opened :: _ => .mismatched opened found

variable {stack stack' : List Bracket} {found : Bracket} {t : Token} {before tokens : List Token}

theorem scanBrackets_cons_iff :
    scanBrackets stack (t :: tokens) = some stack' ↔
      ∃ next, stackAfter stack t = some next ∧ scanBrackets next tokens = some stack' :=
  Option.bind_eq_some_iff

/-- Only a closing bracket can stop the scan. -/
theorem stackAfter_eq_none (h : stackAfter stack t = none) :
    ∃ found, t = .closing found ∧ stack.head? ≠ some found := by
  cases t with
  | closing found =>
    refine ⟨found, rfl, fun hhead => ?_⟩
    rw [stackAfter, if_pos hhead] at h
    cases h
  | _ => cases h

/-- A scan that stops does so at a first closing bracket that does not match. -/
theorem exists_offence (h : scanBrackets stack tokens = none) :
    ∃ before found after opened, tokens = before ++ .closing found :: after ∧
      scanBrackets stack before = some opened ∧ opened.head? ≠ some found := by
  induction tokens generalizing stack with
  | nil => cases h
  | cons t rest ih =>
    -- either the first token offends or the rest does, on the stack after it
    cases ht : stackAfter stack t with
    | none =>
      obtain ⟨found, rfl, hhead⟩ := stackAfter_eq_none ht
      exact ⟨[], found, rest, stack, rfl, rfl, hhead⟩
    | some next =>
      rw [scanBrackets, ht] at h
      obtain ⟨before, found, after, opened, rfl, hbefore, hhead⟩ := ih h
      refine ⟨t :: before, found, after, opened, rfl, ?_, hhead⟩
      exact scanBrackets_cons_iff.mpr ⟨next, ht, hbefore⟩

/-! ### Nesting in step with the scan -/

variable {level : Level} {outer : List (Bracket × Level)}

/-- A token that does not offend is read, and leaves open what the scan leaves open. -/
theorem nestFrom_step (level : Level) (h : stackAfter (outer.map Prod.fst) t = some stack) :
    ∃ level' outer', outer'.map Prod.fst = stack ∧
      ∀ rest, nestFrom level outer (t :: rest) = nestFrom level' outer' rest := by
  cases t with
  | opening b =>
    cases h
    exact ⟨.start, (b, level) :: outer, rfl, fun _ => rfl⟩
  | closing b =>
    cases outer with
    | nil => cases h
    | cons around outer =>
      obtain ⟨opened, around⟩ := around
      by_cases hopened : opened = b
      · subst hopened
        have hstack : outer.map Prod.fst = stack := by
          simpa [stackAfter] using h
        refine ⟨around.push (bracketItems opened level.close), outer, hstack, fun rest => ?_⟩
        rw [nestFrom, if_pos rfl]
      · simp [stackAfter, hopened] at h
  | _ =>
    cases h
    exact ⟨_, outer, rfl, fun _ => rfl⟩

/-- The same for tokens of which none offends. -/
theorem nestFrom_run (level : Level)
    (h : scanBrackets (outer.map Prod.fst) before = some stack) :
    ∃ level' outer', outer'.map Prod.fst = stack ∧
      ∀ rest, nestFrom level outer (before ++ rest) = nestFrom level' outer' rest := by
  induction before generalizing level outer with
  | nil =>
    cases h
    exact ⟨level, outer, rfl, fun _ => rfl⟩
  | cons t before ih =>
    obtain ⟨next, hnext, h⟩ := scanBrackets_cons_iff.mp h
    obtain ⟨level₁, outer₁, rfl, hstep⟩ := nestFrom_step level hnext
    obtain ⟨level₂, outer₂, hstack, hrun⟩ := ih level₁ h
    refine ⟨level₂, outer₂, hstack, fun rest => ?_⟩
    calc nestFrom level outer (t :: (before ++ rest))
        = nestFrom level₁ outer₁ (before ++ rest) := hstep (before ++ rest)
      _ = nestFrom level₂ outer₂ rest := hrun rest

/-- Nesting up to tokens that the scan has passed. -/
theorem nest_run (h : scanBrackets [] before = some stack) :
    ∃ level outer, outer.map Prod.fst = stack ∧
      ∀ rest, nest (before ++ rest) = nestFrom level outer rest :=
  @nestFrom_run stack before [] .start h

theorem nest_eq_ok (h : scanBrackets [] tokens = some []) : ∃ g, nest tokens = .ok g := by
  obtain ⟨level, outer, houter, hrun⟩ := nest_run h
  cases List.map_eq_nil_iff.mp houter
  refine ⟨level.close, ?_⟩
  rw [← List.append_nil tokens, hrun]
  rfl

/-- Tokens that leave brackets open fail with the innermost of them. -/
theorem nest_eq_unclosed {opened : Bracket} (h : scanBrackets [] tokens = some (opened :: stack)) :
    nest tokens = .error (.unclosed opened) := by
  obtain ⟨level, outer, houter, hrun⟩ := nest_run h
  obtain ⟨around, outer, rfl, rfl, -⟩ := List.map_eq_cons_iff.mp houter
  rw [← List.append_nil tokens, hrun]
  rfl

/-- The first closing bracket that does not fit is the one reported. -/
theorem nest_eq_offence {after : List Token} (h : scanBrackets [] before = some stack)
    (hfound : stack.head? ≠ some found) :
    nest (before ++ .closing found :: after) = .error (offence stack found) := by
  obtain ⟨level, outer, rfl, hrun⟩ := nest_run h
  rw [hrun]
  cases outer with
  | nil => rfl
  | cons around outer =>
    have hopened : around.1 ≠ found := fun heq => hfound (congrArg some heq)
    show (if around.1 = found then _ else _) = _
    rw [if_neg hopened]
    rfl

/-- **Bracket matching is exact.** Nesting succeeds if and only if the scan meets no closing bracket
that does not match and ends without an open one. A closing bracket that does not match is reported
with the innermost open bracket, or as one that was never opened; it is the first such bracket, for
the scan has passed all before it. If there is none, the innermost bracket still open is reported;
and there is no fourth case. -/
theorem nest_brackets (tokens : List Token) :
    ((∃ g, nest tokens = .ok g) ↔ scanBrackets [] tokens = some []) ∧
    (∀ before found after stack, tokens = before ++ .closing found :: after →
      scanBrackets [] before = some stack → stack.head? ≠ some found →
      nest tokens = .error (offence stack found)) ∧
    (∀ opened stack, scanBrackets [] tokens = some (opened :: stack) →
      nest tokens = .error (.unclosed opened)) ∧
    (scanBrackets [] tokens = none → ∃ before found after stack,
      tokens = before ++ .closing found :: after ∧ scanBrackets [] before = some stack ∧
      stack.head? ≠ some found) := by
  refine ⟨⟨?_, nest_eq_ok⟩, ?_, fun _ _ => nest_eq_unclosed, exists_offence⟩
  · rintro ⟨g, hg⟩
    cases h : scanBrackets [] tokens with
    | none =>
      obtain ⟨before, found, after, stack, rfl, hbefore, hfound⟩ := exists_offence h
      rw [nest_eq_offence hbefore hfound] at hg
      cases hg
    | some stack =>
      cases stack with
      | nil => rfl
      | cons opened stack =>
        rw [nest_eq_unclosed h] at hg
        cases hg
  · rintro before found after stack rfl hbefore hfound
    exact nest_eq_offence hbefore hfound

/-- In `( [ ) [` the round bracket that closes is to blame, not the ones that stay open. -/
theorem nest_brackets_mixed :
    scanBrackets [] [.opening .round, .opening .square] = some [.square, .round] ∧
      nest [.opening .round, .opening .square, .closing .round, .opening .square] =
        .error (.mismatched .square .round) :=
  ⟨rfl, (nest_brackets _).2.1 [.opening .round, .opening .square] .round [.opening .square]
    [.square, .round] rfl rfl (by decide)⟩

end Nesting
end PixelCalc
