import PixelCalc.Proofs.Folding.Grammar

/-!
# Replacing phrases by their trees

A folding pass replaces the phrases of one level by their trees and leaves all other items as they
are. The grammar above that level is then read over single operands.

- `Replaced P items out`: `out` is `items` with phrases of `P` replaced by their trees.
- `Lifts R F' F`: `F'` holds of a list exactly if `F` holds of a list that `R` makes of it; every
  level of the grammar keeps this relation (`lifts_chain` and its instances).
- `Chain.induct_items`: a property of lists that survives putting an operator between two of them
  holds of every chain.
-/

namespace PixelCalc

/-- The item is an expression. -/
def Item.isOperand : Item → Bool
  | .expr _ => true
  | _ => false

namespace Grammar

/-- A single operand. -/
inductive Single : Phrase
  | operand (e : Expr) : Single [.expr e] e

/-- `out` is `items` with phrases of `P` replaced by their trees. -/
inductive Replaced (P : Phrase) : List Item → List Item → Prop
  | nil : Replaced P [] []
  | keep {item : Item} {rest out : List Item} (hitem : item.isOperand = false)
      (h : Replaced P rest out) : Replaced P (item :: rest) (item :: out)
  | phrase {l rest out : List Item} {e : Expr} (hl : P l e) (h : Replaced P rest out) :
      Replaced P (l ++ rest) (.expr e :: out)

namespace Replaced

variable {P : Phrase} {items items₁ items₂ out out₁ out₂ : List Item}

/-- Two parts are replaced independently. -/
theorem append (h₁ : Replaced P items₁ out₁) (h₂ : Replaced P items₂ out₂) :
    Replaced P (items₁ ++ items₂) (out₁ ++ out₂) := by
  induction h₁ with
  | nil => exact h₂
  | keep hitem _ ih => exact .keep hitem ih
  | phrase hl _ ih =>
    rw [List.append_assoc, List.cons_append]
    exact .phrase hl ih

/-- A replaced list that falls into two parts comes from a list that does. -/
theorem of_append (h : Replaced P items (out₁ ++ out₂)) :
    ∃ items₁ items₂, items = items₁ ++ items₂ ∧ Replaced P items₁ out₁ ∧
      Replaced P items₂ out₂ := by
  -- Induction on the first part of the result; each item of it was kept or is the tree of a phrase.
  induction out₁ generalizing items with
  | nil => exact ⟨[], items, rfl, .nil, h⟩
  | cons item out₁ ih =>
    cases h with
    | keep hitem h =>
      obtain ⟨items₁, items₂, rfl, h₁, h₂⟩ := ih h
      exact ⟨item :: items₁, items₂, rfl, .keep hitem h₁, h₂⟩
    | phrase hl h =>
      obtain ⟨items₁, items₂, rfl, h₁, h₂⟩ := ih h
      exact ⟨_ ++ items₁, items₂, (List.append_assoc ..).symm, .phrase hl h₁, h₂⟩

theorem nil_iff : Replaced P items [] ↔ items = [] := by
  constructor
  · rintro ⟨⟩
    rfl
  · rintro rfl
    exact .nil

/-- An item that is no operand stays where it is. -/
theorem keep_iff {item : Item} (hitem : item.isOperand = false) :
    Replaced P items (item :: out) ↔ ∃ rest, items = item :: rest ∧ Replaced P rest out := by
  constructor
  · intro h
    cases h with
    | keep _ h => exact ⟨_, rfl, h⟩
    | phrase _ _ => cases hitem
  · rintro ⟨rest, rfl, h⟩
    exact .keep hitem h

/-- What is replaced by a single tree is the phrase of that tree. -/
theorem single_iff {e : Expr} : Replaced P items [.expr e] ↔ P items e := by
  constructor
  · intro h
    cases h with
    | keep hitem _ => cases hitem
    | phrase hl h =>
      rw [nil_iff.mp h, List.append_nil]
      exact hl
  · intro h
    rw [← List.append_nil items]
    exact .phrase h .nil

/-- Where operands are phrases, an item may stay what it is. -/
theorem item (hoperand : ∀ e, P [.expr e] e) (item : Item) : Replaced P [item] [item] := by
  cases item with
  | expr e => exact single_iff.mpr (hoperand e)
  | operator op => exact .keep rfl .nil
  | dot => exact .keep rfl .nil

/-- The two sides of an operator that stays are replaced on their own. -/
theorem operator_iff {op : Operator} :
    Replaced P items (out₁ ++ .operator op :: out₂) ↔
      ∃ l r, items = l ++ .operator op :: r ∧ Replaced P l out₁ ∧ Replaced P r out₂ := by
  constructor
  · intro h
    obtain ⟨l, items₂, rfl, h₁, h₂⟩ := h.of_append
    obtain ⟨r, rfl, hr⟩ := (keep_iff rfl).mp h₂
    exact ⟨l, r, rfl, h₁, hr⟩
  · rintro ⟨l, r, rfl, h₁, h₂⟩
    exact h₁.append (.keep rfl h₂)

end Replaced

/-! ### Lifting a level -/

/-- `F'` holds of a list exactly if `F` holds of one that `R` makes of it. -/
def Lifts (R : List Item → List Item → Prop) (F' F : Phrase) : Prop :=
  ∀ items e, F' items e ↔ ∃ out, R items out ∧ F out e

/-- At the bottom a phrase is replaced by its tree, a single operand. -/
theorem lifts_single (P : Phrase) : Lifts (Replaced P) P Single := by
  intro items e
  constructor
  · intro h
    exact ⟨[.expr e], Replaced.single_iff.mpr h, .operand e⟩
  · rintro ⟨_, h, ⟨⟩⟩
    exact Replaced.single_iff.mp h

section

variable {P Head' Head Operand' Operand : Phrase} {Joins' Joins : Junction}

/-- A chain over phrases is a chain over their trees, if the replacement does not matter to where
the operators may stand. -/
theorem lifts_chain (hhead : Lifts (Replaced P) Head' Head)
    (hoperand : Lifts (Replaced P) Operand' Operand)
    (hjoins : ∀ {l out₁ r out₂ op}, Replaced P l out₁ → Replaced P r out₂ →
      (Joins' l op r ↔ Joins out₁ op out₂)) :
    Lifts (Replaced P) (Chain Joins' Head' Operand') (Chain Joins Head Operand) := by
  intro items e
  constructor
  · intro h
    induction h with
    | head h =>
      obtain ⟨out, hout, h⟩ := (hhead _ _).mp h
      exact ⟨out, hout, .head h⟩
    | more _ hop hr ih =>
      obtain ⟨out₁, hl, ih⟩ := ih
      obtain ⟨out₂, hr, h⟩ := (hoperand _ _).mp hr
      exact ⟨_, hl.append (.keep rfl hr), .more ih ((hjoins hl hr).mp hop) h⟩
  · rintro ⟨out, hout, h⟩
    induction h generalizing items with
    | head h => exact .head ((hhead _ _).mpr ⟨_, hout, h⟩)
    | more _ hop hr ih =>
      obtain ⟨l, r, rfl, hl, hr'⟩ := Replaced.operator_iff.mp hout
      exact .more (ih _ hl) ((hjoins hl hr').mpr hop) ((hoperand _ _).mpr ⟨_, hr', hr⟩)

theorem lifts_oneOf {ops : List Operator} (hhead : Lifts (Replaced P) Head' Head)
    (hoperand : Lifts (Replaced P) Operand' Operand) :
    Lifts (Replaced P) (Chain (oneOf ops) Head' Operand') (Chain (oneOf ops) Head Operand) :=
  lifts_chain hhead hoperand fun _ _ => Iff.rfl

variable {F' F : Phrase}

/-- A sign is an operator and is kept, so only what it stands before is replaced. -/
theorem lifts_signed {signs : List Operator} {left : Expr} (h : Lifts (Replaced P) F' F) :
    Lifts (Replaced P) (Signed signs left F') (Signed signs left F) := by
  intro items e
  constructor
  · rintro (hF | ⟨hop, hF⟩)
    · obtain ⟨out, hout, hF⟩ := (h _ _).mp hF
      exact ⟨out, hout, .plain hF⟩
    · obtain ⟨out, hout, hF⟩ := (h _ _).mp hF
      exact ⟨_, .keep rfl hout, .signed hop hF⟩
  · rintro ⟨out, hout, hF | ⟨hop, hF⟩⟩
    · exact .plain ((h _ _).mpr ⟨_, hout, hF⟩)
    · obtain ⟨rest, rfl, hrest⟩ := (Replaced.keep_iff rfl).mp hout
      exact .signed hop ((h _ _).mpr ⟨_, hrest, hF⟩)

theorem lifts_bound (h : Lifts (Replaced P) F' F) : Lifts (Replaced P) (Bound F') (Bound F) := by
  intro items e
  constructor
  · rintro (_ | hF)
    · exact ⟨[], .nil, .missing⟩
    · obtain ⟨out, hout, hF⟩ := (h _ _).mp hF
      exact ⟨out, hout, .present hF⟩
  · rintro ⟨out, hout, _ | hF⟩
    · rw [Replaced.nil_iff.mp hout]
      exact .missing
    · exact .present ((h _ _).mpr ⟨_, hout, hF⟩)

/-- An interval is a chain whose bounds may be missing, and a missing bound is replaced by nothing.
-/
theorem lifts_interval (h : Lifts (Replaced P) F' F) :
    Lifts (Replaced P) (Interval F') (Interval F) := by
  have hbound := lifts_bound h
  intro items e
  constructor
  · intro hi
    induction hi with
    | first hl hr =>
      obtain ⟨out₁, hout₁, hl⟩ := (hbound _ _).mp hl
      obtain ⟨out₂, hout₂, hr⟩ := (hbound _ _).mp hr
      exact ⟨_, hout₁.append (.keep rfl hout₂), .first hl hr⟩
    | next _ hr ih =>
      obtain ⟨out₁, hout₁, hl⟩ := ih
      obtain ⟨out₂, hout₂, hr⟩ := (hbound _ _).mp hr
      exact ⟨_, hout₁.append (.keep rfl hout₂), .next hl hr⟩
  · rintro ⟨out, hout, hi⟩
    induction hi generalizing items with
    | first hl hr =>
      obtain ⟨l, r, rfl, hout₁, hout₂⟩ := Replaced.operator_iff.mp hout
      exact .first ((hbound _ _).mpr ⟨_, hout₁, hl⟩) ((hbound _ _).mpr ⟨_, hout₂, hr⟩)
    | next _ hr ih =>
      obtain ⟨l, r, rfl, hout₁, hout₂⟩ := Replaced.operator_iff.mp hout
      exact .next (ih _ hout₁) ((hbound _ _).mpr ⟨_, hout₂, hr⟩)

theorem lifts_ranged (h : Lifts (Replaced P) F' F) :
    Lifts (Replaced P) (Ranged F') (Ranged F) := by
  intro items e
  constructor
  · rintro (hu | hi)
    · obtain ⟨out, hout, hu⟩ := (h _ _).mp hu
      exact ⟨out, hout, .unary hu⟩
    · obtain ⟨out, hout, hi⟩ := (lifts_interval h _ _).mp hi
      exact ⟨out, hout, .interval hi⟩
  · rintro ⟨out, hout, hu | hi⟩
    · exact .unary ((h _ _).mpr ⟨_, hout, hu⟩)
    · exact .interval ((lifts_interval h _ _).mpr ⟨_, hout, hi⟩)

end

/-! ### Properties of the items of a phrase -/

/-- A property of lists that survives putting an operator between two of them. -/
theorem Chain.induct_items {Joins : Junction} {Head Operand : Phrase} {Q : List Item → Prop}
    (hhead : ∀ {items e}, Head items e → Q items)
    (hoperand : ∀ {items e}, Operand items e → Q items)
    (hmore : ∀ {l op r}, Joins l op r → Q l → Q r → Q (l ++ .operator op :: r))
    {items : List Item} {e : Expr} (h : Chain Joins Head Operand items e) : Q items := by
  induction h with
  | head h => exact hhead h
  | more _ hop hr ih => exact hmore hop ih (hoperand hr)

end Grammar
end PixelCalc
