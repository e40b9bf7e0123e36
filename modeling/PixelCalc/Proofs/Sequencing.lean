/-!
# Steps that may fail

A sequence of steps succeeds if every step does, and fails with the first one that fails:
`bind_eq_ok` and `bind_eq_error` take the first step off. It commutes with what its steps commute
with one by one: `bind_map_comm`. What is known of the end of a sequence is put together from what is
known of the ends of its steps: `Yields`, `Yields.bind`.
-/

namespace PixelCalc

/-- Two steps succeed only if both do. This is how the steps of a computation are peeled apart
below. -/
theorem bind_eq_ok {ε α β : Type} {x : Except ε α} {f : α → Except ε β} {b : β}
    (h : (x >>= f) = .ok b) : ∃ a, x = .ok a ∧ f a = .ok b := by
  cases x with
  | ok a => exact ⟨a, rfl, h⟩
  | error e => cases h

/-- Two steps fail at the first one, or at the second with the result of the first. -/
theorem bind_eq_error {ε α β : Type} {x : Except ε α} {f : α → Except ε β} {e : ε}
    (h : (x >>= f) = .error e) : x = .error e ∨ ∃ a, x = .ok a ∧ f a = .error e := by
  cases x with
  | ok a => exact .inr ⟨a, rfl, h⟩
  | error e' =>
    cases h
    exact .inl rfl

/-- A step that commutes with changes of what goes in and what comes out may follow such a
change. -/
theorem bind_map_comm {ε α α' β β' : Type} {x : Except ε α} {f : α → Except ε β}
    {f' : α' → Except ε β'} {g : α → α'} {g' : β → β'} (h : ∀ a, f' (g a) = (f a).map g') :
    (x.map g >>= f') = (x >>= f).map g' := by
  cases x with
  | ok a => exact h a
  | error e => rfl

/-! ### What steps end with -/

/-- The result satisfies `P`, or the failure satisfies `F`. -/
def Yields {ε α : Type} (P : α → Prop) (F : ε → Prop) : Except ε α → Prop
  | .ok a => P a
  | .error e => F e

section

variable {ε α β : Type} {P P' : α → Prop} {Q : β → Prop} {F : ε → Prop} {x y : Except ε α}

/-- The rule for two steps: what the first one guarantees may be assumed of the second, and both
share what holds of errors. -/
theorem Yields.bind {f : α → Except ε β} (hx : Yields P F x) (hf : ∀ a, P a → Yields Q F (f a)) :
    Yields Q F (x >>= f) := by
  cases x with
  | ok a => exact hf a hx
  | error e => exact hx

/-- What is known of a result. -/
theorem Yields.of_ok (h : Yields P F x) {a : α} (hx : x = .ok a) : P a := by
  subst hx
  exact h

/-- What is known of an error. -/
theorem Yields.of_error (h : Yields P F x) {e : ε} (hx : x = .error e) : F e := by
  subst hx
  exact h

/-- A choice guarantees what both of its branches do. -/
theorem yields_ite {c : Prop} [Decidable c] (hx : c → Yields P F x) (hy : ¬ c → Yields P F y) :
    Yields P F (if c then x else y) := by
  by_cases h : c
  · rw [if_pos h]
    exact hx h
  · rw [if_neg h]
    exact hy h

end

end PixelCalc
