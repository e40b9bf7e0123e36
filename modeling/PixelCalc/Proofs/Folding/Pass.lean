import PixelCalc.Proofs.Folding.Replacement

/-!
# What a folding pass does

`Pass` lists the steps of a pass that succeeds: an item is passed over, or an operator is folded
with its two operands. `foldTier_eq_ok_iff` says that these are all; whatever a pass preserves is an
induction over its steps.
-/

namespace PixelCalc
namespace Folding

/-- The items begin with an operand. -/
def beginsWithOperand (items : List Item) : Bool :=
  items.head?.any Item.isOperand

@[simp] theorem beginsWithOperand_nil : beginsWithOperand [] = false :=
  rfl

@[simp] theorem beginsWithOperand_cons (item : Item) (items : List Item) :
    beginsWithOperand (item :: items) = item.isOperand :=
  rfl

theorem beginsWithOperand_eq_false {items : List Item}
    (h : ∀ e rest, items = .expr e :: rest → False) : beginsWithOperand items = false := by
  match items with
  | [] => rfl
  | .expr e :: rest => exact (h e rest rfl).elim
  | .operator _ :: _ => rfl
  | .dot :: _ => rfl

/-- `op` takes the left operand off the items passed so far, or supplies it and leaves them. -/
inductive TakesLeft (tier : Tier) (op : Operator) : List Item → Expr → List Item → Prop
  | operand {left : Expr} {passed : List Item} (htier : tier.prefixOnly = false) :
      TakesLeft tier op (.expr left :: passed) left passed
  | implicit {left : Expr} {passed : List Item} (hpassed : beginsWithOperand passed = false)
      (hleft : implicitLeft op = some left) : TakesLeft tier op passed left passed

/-- `op` takes the right operand off the items to come, or supplies it and leaves them. -/
inductive TakesRight (op : Operator) : List Item → Expr → List Item → Prop
  | operand {right : Expr} {rest : List Item} : TakesRight op (.expr right :: rest) right rest
  | implicit {right : Expr} {rest : List Item} (hrest : beginsWithOperand rest = false)
      (hright : implicitRight op = some right) : TakesRight op rest right rest

/-- The pass leaves an item as it is: it is no operator of the tier, or the tier binds prefixes only
and a value stands on its left. -/
def Skips (tier : Tier) (passed : List Item) (item : Item) : Prop :=
  ∀ op ∈ tier.operators, item = .operator op →
    tier.prefixOnly = true ∧ beginsWithOperand passed = true

/-- The steps of a pass over the items that follow `passed`. -/
inductive Pass (tier : Tier) : List Item → List Item → List Item → Prop
  | done {passed : List Item} : Pass tier passed [] passed.reverse
  | skip {passed rest out : List Item} {item : Item} (hitem : Skips tier passed item)
      (h : Pass tier (item :: passed) rest out) : Pass tier passed (item :: rest) out
  | fold {passed passed' rest rest' out : List Item} {op : Operator} {left right : Expr}
      (hop : op ∈ tier.operators) (hleft : TakesLeft tier op passed left passed')
      (hright : TakesRight op rest right rest')
      (h : Pass tier (.expr (operation op left right) :: passed') rest' out) :
      Pass tier passed (.operator op :: rest) out

variable {tier : Tier} {op : Operator} {passed passed' rest rest' items out : List Item}
  {left right : Expr}

/-- An operator is left to a later tier exactly if its tier wants no left operand and there is
one. -/
theorem leftOperand_eq_none_iff :
    leftOperand tier op passed = .ok none ↔
      tier.prefixOnly = true ∧ beginsWithOperand passed = true := by
  unfold leftOperand
  split
  · simp [Item.isOperand]
  · rename_i hpassed
    simp only [beginsWithOperand_eq_false hpassed, Bool.false_eq_true, and_false, iff_false]
    split
    · simp
    · split <;> simp

/-- The operand that a fold takes on the left, as a relation: the value there, unless the tier takes
prefixes only, or the bound that is filled in. -/
theorem leftOperand_eq_some_iff :
    leftOperand tier op passed = .ok (some (left, passed')) ↔
      TakesLeft tier op passed left passed' := by
  constructor
  · intro h
    unfold leftOperand at h
    split at h
    · split at h
      · cases h
      · rename_i htier
        cases h
        exact .operand (Bool.eq_false_iff.mpr htier)
    · rename_i hpassed
      split at h
      · rename_i hleft
        cases h
        exact .implicit (beginsWithOperand_eq_false hpassed) hleft
      · split at h <;> cases h
  · rintro (htier | ⟨hpassed, hleft⟩)
    · simp [leftOperand, htier]
    · unfold leftOperand
      split
      · cases hpassed
      · rw [hleft]

/-- The steps of `Pass` are those of `foldTier` when it succeeds. -/
theorem foldTier_eq_ok_iff :
    foldTier tier passed items = .ok out ↔ Pass tier passed items out := by
  constructor
  · intro h
    fun_induction foldTier tier passed items with
    | case1 passed =>
      cases h
      exact .done
    | case2 => cases h
    | case3 passed op rest hop hleft ih =>
      exact .skip (fun _ _ _ => leftOperand_eq_none_iff.mp hleft) (ih h)
    | case4 passed op hop left passed' hleft right rest ih =>
      exact .fold hop (leftOperand_eq_some_iff.mp hleft) .operand (ih h)
    | case5 passed op hop left passed' hleft right hright =>
      cases h
      exact .fold hop (leftOperand_eq_some_iff.mp hleft) (.implicit rfl hright) .done
    | case6 => cases h
    | case7 passed op hop left passed' hleft item rest hitem right hright ih =>
      have hno : beginsWithOperand (item :: rest) = false :=
        beginsWithOperand_eq_false fun e _ heq => hitem e (List.cons.inj heq).1
      exact .fold hop (leftOperand_eq_some_iff.mp hleft) (.implicit hno hright) (ih h)
    | case8 => cases h
    | case9 passed op rest hop ih =>
      exact .skip (fun op' hop' heq => absurd hop' (Item.operator.inj heq ▸ hop)) (ih h)
    | case10 passed item rest hitem ih =>
      exact .skip (fun op' _ heq => absurd heq (hitem op')) (ih h)
  · intro h
    -- every step of the relation is one call of the pass, whose branch the step decides
    induction h with
    | done => rfl
    | @skip passed rest out item hitem _ ih =>
      cases item with
      | expr e => exact ih
      | dot => exact ih
      | operator op =>
        by_cases hop : op ∈ tier.operators
        · rw [foldTier, if_pos hop, leftOperand_eq_none_iff.mpr (hitem op hop rfl)]
          exact ih
        · rw [foldTier, if_neg hop]
          exact ih
    | fold hop hleft hright _ ih =>
      rw [foldTier, if_pos hop, leftOperand_eq_some_iff.mpr hleft]
      cases hright with
      | operand => exact ih
      | implicit hrest hright =>
        dsimp only
        split
        · cases hrest
        · rw [hright]
          exact ih
        · rw [hright]
          exact ih

/-- Several tiers pass one after the other. -/
theorem foldTiers_cons_iff {tier : Tier} {more : List Tier} {items result : List Item} :
    foldTiers (tier :: more) items = .ok result ↔
      ∃ out, Pass tier [] items out ∧ foldTiers more out = .ok result := by
  rw [foldTiers]
  constructor
  · intro h
    split at h
    · rename_i out hout
      exact ⟨out, foldTier_eq_ok_iff.mp hout, h⟩
    · cases h
  · rintro ⟨out, hout, h⟩
    rw [foldTier_eq_ok_iff.mpr hout]
    exact h

end Folding
end PixelCalc
