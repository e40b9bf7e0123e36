import PixelCalc.Proofs.Folding.Pass

/-!
# One tier as a level of the grammar

A pass of a tier that also binds between two values replaces the phrases of that tier by their
trees, and takes every phrase as long as it can be.

- `TierPhrase`: the phrases of a tier, with the operands that its operators may lack.
- `Pass.replaced`: a pass replaces phrases.
- `pass_of_replaced`: a replacement that leaves no two operands side by side, and no operator of the
  tier, is what the pass does.
- `tierPhrase_eq_chain`, `tierPhrase_range`: the phrases of a tier as a level of the grammar.
-/

namespace PixelCalc
namespace Folding

open Grammar

/-- The right operand of `op`, which some operators may lack. -/
inductive RightPhrase (op : Operator) : Phrase
  | operand (e : Expr) : RightPhrase op [.expr e] e
  | missing {e : Expr} (h : implicitRight op = some e) : RightPhrase op [] e

/-- Operands between operators of a tier, grouped from the left. -/
inductive TierPhrase (ops : List Operator) : Phrase
  | operand (e : Expr) : TierPhrase ops [.expr e] e
  | first {op : Operator} {r : List Item} {a b : Expr} (hop : op ∈ ops)
      (ha : implicitLeft op = some a) (hr : RightPhrase op r b) :
      TierPhrase ops (.operator op :: r) (operation op a b)
  | more {op : Operator} {l r : List Item} {a b : Expr} (hl : TierPhrase ops l a) (hop : op ∈ ops)
      (hr : RightPhrase op r b) : TierPhrase ops (l ++ .operator op :: r) (operation op a b)

variable {tier : Tier} {op : Operator} {ops : List Operator}
  {passed rest items out : List Item} {left right : Expr}

/-- What a fold takes on the right is a phrase: an operand, or nothing where the operator may lack
one. -/
theorem TakesRight.exists_phrase {rest' : List Item} (h : TakesRight op rest right rest') :
    ∃ r, rest = r ++ rest' ∧ RightPhrase op r right := by
  cases h with
  | operand => exact ⟨_, rfl, .operand right⟩
  | implicit _ hright => exact ⟨[], rfl, .missing hright⟩

/-- A phrase on the right is what a fold takes, unless the next item is an operand that it would
take instead. -/
theorem RightPhrase.takesRight {r : List Item} (h : RightPhrase op r right)
    (hrest : beginsWithOperand rest = false) : TakesRight op (r ++ rest) right rest := by
  cases h with
  | operand => exact .operand
  | missing hright => exact .implicit hrest hright

/-! ### A pass replaces phrases -/

/-- A pass replaces phrases of its tier, if what it has passed was replaced. -/
theorem Pass.replaced (h : Pass tier passed items out)
    {raw : List Item} (hraw : Replaced (TierPhrase tier.operators) raw passed.reverse) :
    Replaced (TierPhrase tier.operators) (raw ++ items) out := by
  induction h generalizing raw with
  | done =>
    rw [List.append_nil]
    exact hraw
  | @skip passed rest out item _ _ ih =>
    have hitem : Replaced (TierPhrase tier.operators) [item] [item] := .item .operand item
    have h := @ih (raw ++ [item]) (by rw [List.reverse_cons]; exact hraw.append hitem)
    rwa [List.append_assoc] at h
  | @fold passed passed' rest rest' out op left right hop hleft hright _ ih =>
    obtain ⟨r, rfl, hr⟩ := hright.exists_phrase
    cases hleft with
    | operand =>
      rw [List.reverse_cons] at hraw
      obtain ⟨raw, l, rfl, hraw, hl⟩ := hraw.of_append
      have hphrase := TierPhrase.more (Replaced.single_iff.mp hl) hop hr
      have h := @ih (raw ++ (l ++ .operator op :: r))
        (by rw [List.reverse_cons]; exact hraw.append (Replaced.single_iff.mpr hphrase))
      simpa only [List.append_assoc, List.cons_append] using h
    | implicit _ ha =>
      have hphrase := TierPhrase.first hop ha hr
      have h := @ih (raw ++ .operator op :: r)
        (by rw [List.reverse_cons]; exact hraw.append (Replaced.single_iff.mpr hphrase))
      simpa only [List.append_assoc, List.cons_append] using h

/-! ### A replacement is a pass -/

/-- No two operands stand side by side. -/
def Separated : List Item → Prop
  | [] => True
  | item :: rest => (item.isOperand = true → beginsWithOperand rest = false) ∧ Separated rest

/-- No two operands stand side by side, and there is no operator of `ops`. -/
structure Sparse (ops : List Operator) (items : List Item) : Prop where
  separated : Separated items
  absent : ∀ op ∈ ops, .operator op ∉ items

/-- If the replaced list does not begin with an operand, then the list did not: phrases become
operands. -/
theorem Replaced.beginsWithOperand_eq_false {P : Phrase} (h : Replaced P items out)
    (hout : beginsWithOperand out = false) : beginsWithOperand items = false := by
  cases h with
  | nil => rfl
  | keep hitem _ => exact hitem
  | phrase _ _ => cases hout

/-- A pass folds a whole phrase, if no operand stands on either side of it. -/
theorem pass_phrase (htier : tier.prefixOnly = false) {l : List Item} {e : Expr}
    (hl : TierPhrase tier.operators l e) (hpassed : beginsWithOperand passed = false) :
    ∀ {rest}, beginsWithOperand rest = false → Pass tier (.expr e :: passed) rest out →
      Pass tier passed (l ++ rest) out := by
  induction hl with
  | operand e => exact fun _ h => .skip (fun _ _ => nofun) h
  | first hop ha hr =>
    exact fun hrest h => .fold hop (.implicit hpassed ha) (hr.takesRight hrest) h
  | @more op l r a b _ hop hr ih =>
    intro rest hrest h
    rw [List.append_assoc]
    exact ih rfl (.fold hop (.operand htier) (hr.takesRight hrest) h)

/-- A pass does a replacement that leaves the operators of the tier nowhere and no two operands side
by side. -/
theorem pass_of_replaced (htier : tier.prefixOnly = false)
    (h : Replaced (TierPhrase tier.operators) items out) (hout : Sparse tier.operators out)
    (hpassed : beginsWithOperand passed = false ∨ beginsWithOperand out = false) :
    Pass tier passed items (passed.reverse ++ out) := by
  induction h generalizing passed with
  | nil =>
    rw [List.append_nil]
    exact .done
  | @keep item rest out hitem _ ih =>
    have hskip : Skips tier passed item :=
      fun op hop heq => absurd (heq ▸ List.mem_cons_self ..) (hout.absent op hop)
    have h := @ih (item :: passed)
      ⟨hout.separated.2, fun op hop hmem => hout.absent op hop (.tail _ hmem)⟩ (.inl hitem)
    rw [List.reverse_cons, List.append_assoc] at h
    exact .skip hskip h
  | @phrase l rest out e hl h ih =>
    -- no operand follows the phrase, which would be taken for a right operand that it lacks
    have hnext : beginsWithOperand out = false := hout.separated.1 rfl
    have hrest := @ih (.expr e :: passed)
      ⟨hout.separated.2, fun op hop hmem => hout.absent op hop (.tail _ hmem)⟩ (.inr hnext)
    rw [List.reverse_cons, List.append_assoc] at hrest
    exact pass_phrase htier hl (hpassed.resolve_right (by simp [Item.isOperand]))
      (Replaced.beginsWithOperand_eq_false h hnext) hrest

/-! ### Tiers as levels of the grammar -/

theorem operation_eq (op : Operator) (a b : Expr) :
    operation op a b = .operation op (leftOperandOf op a) b := by
  cases op <;> cases a <;> rfl

/-- The operands that operators supply are no names, so `=` leaves them as they are. -/
theorem leftOperandOf_implicitLeft {a : Expr} (h : implicitLeft op = some a) :
    leftOperandOf op a = a := by
  cases op <;> first | rfl | cases h

/-- A tier whose operators need their right operands is a chain over single operands, whose head may
lack its left operand where the operators may. -/
theorem tierPhrase_eq_chain {Head : Phrase} (hright : ∀ op ∈ ops, implicitRight op = none)
    (hhead : ∀ items e, Head items e ↔ Single items e ∨
      ∃ op ∈ ops, ∃ a b, implicitLeft op = some a ∧ items = [.operator op, .expr b] ∧
        e = .operation op a b) :
    TierPhrase ops = Chain (oneOf ops) Head Single := by
  funext items e
  apply propext
  constructor
  -- every phrase of the tier is a chain, whose head may lack its left operand
  · intro h
    induction h with
    | operand e => exact .head ((hhead _ _).mpr (.inl (.operand e)))
    | @first op r a b hop ha hr =>
      cases hr with
      | operand =>
        refine .head ((hhead _ _).mpr (.inr ⟨op, hop, a, b, ha, rfl, ?_⟩))
        rw [operation_eq, leftOperandOf_implicitLeft ha]
      | missing hb => rw [hright op hop] at hb; cases hb
    | @more op l r a b _ hop hr ih =>
      rw [operation_eq]
      cases hr with
      | operand => exact .more ih hop (.operand b)
      | missing hb => rw [hright op hop] at hb; cases hb
  -- every chain is a phrase; an operand on the right is never lacking
  · intro h
    induction h with
    | head h =>
      rcases (hhead _ _).mp h with h | ⟨op, hop, a, b, ha, rfl, rfl⟩
      · cases h
        exact .operand _
      · have h := TierPhrase.first hop ha (.operand b)
        rwa [operation_eq, leftOperandOf_implicitLeft ha] at h
    | more _ hop hr ih =>
      cases hr
      rw [← operation_eq]
      exact .more ih hop (.operand _)

/-- A tier whose operators need both operands. -/
theorem tierPhrase_eq_plain (hright : ∀ op ∈ ops, implicitRight op = none)
    (hleft : ∀ op ∈ ops, implicitLeft op = none) :
    TierPhrase ops = Chain (oneOf ops) Single Single := by
  refine tierPhrase_eq_chain hright fun items e => ⟨.inl, ?_⟩
  rintro (h | ⟨op, hop, a, b, ha, -, -⟩)
  · exact h
  · rw [hleft op hop] at ha
    cases ha

/-- A tier whose operators take `left` where they have no left operand. -/
theorem tierPhrase_eq_signed (hright : ∀ op ∈ ops, implicitRight op = none)
    (hleft : ∀ op ∈ ops, implicitLeft op = some left) :
    TierPhrase ops = Chain (oneOf ops) (Signed ops left Single) Single := by
  refine tierPhrase_eq_chain hright fun items e => ⟨?_, ?_⟩
  · rintro (h | ⟨hop, ⟨⟩⟩)
    · exact .inl h
    · exact .inr ⟨_, hop, left, _, hleft _ hop, rfl, rfl⟩
  · rintro (h | ⟨op, hop, a, b, ha, rfl, rfl⟩)
    · exact .plain h
    · rw [hleft op hop] at ha
      cases ha
      exact .signed hop (.operand b)

theorem rightPhrase_range : RightPhrase .range = Bound Single := by
  funext items e
  apply propext
  constructor
  · rintro (_ | h)
    · exact .present (.operand e)
    · cases h
      exact .missing
  · rintro (_ | ⟨⟨⟩⟩)
    · exact .missing rfl
    · exact .operand _

/-- The tier of the range is the only one whose operator may lack both operands. -/
theorem tierPhrase_range : TierPhrase [.range] = Ranged Single := by
  funext items e
  apply propext
  constructor
  · intro h
    induction h with
    | operand e => exact .unary (.operand e)
    | first hop ha hr =>
      cases List.mem_singleton.mp hop
      cases ha
      rw [rightPhrase_range] at hr
      exact .interval (.first .missing hr)
    | more _ hop hr ih =>
      cases List.mem_singleton.mp hop
      rw [rightPhrase_range] at hr
      rcases ih with h | h
      · exact .interval (.first (.present h) hr)
      · exact .interval (.next h hr)
  · rintro (⟨⟨⟩⟩ | h)
    · exact .operand _
    · induction h with
      | first hl hr =>
        rw [← rightPhrase_range] at hr
        rcases hl with _ | ⟨⟨⟩⟩
        · exact .first (List.mem_singleton.mpr rfl) rfl hr
        · exact .more (.operand _) (List.mem_singleton.mpr rfl) hr
      | next _ hr ih =>
        rw [← rightPhrase_range] at hr
        exact .more ih (List.mem_singleton.mpr rfl) hr

end Folding
end PixelCalc
