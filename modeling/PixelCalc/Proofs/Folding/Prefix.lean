import PixelCalc.Proofs.Folding.Tier

/-!
# The prefix tier

The first pass folds every `**` that has no operand on its left, so that each `**` it leaves stands
directly after an operand. The later passes lose sight of that operand: a range may take it as its
bound. So the condition is followed up to the grammar in the form the first pass leaves it in.

- `Attached`: every `**` stands directly after an operand.
- `Pass.replaced_unary`, `pass_of_replaced_unary`: the pass replaces unaries and leaves an attached
  list.
- `guards_power` and the levels above it: a phrase whose powers stand after operands is a phrase
  that is attached.
-/

namespace PixelCalc
namespace Folding

open Grammar

/-- The tier of `**` as a prefix. -/
def prefixTier : Tier :=
  ⟨[.power], true⟩

/-- Every `**` of a list in reverse stands directly after an operand. -/
def Attached : List Item → Prop
  | [] => True
  | item :: passed =>
    (item = .operator .power → beginsWithOperand passed = true) ∧ Attached passed

variable {passed items out l r : List Item} {op : Operator}

/-- Nothing on the left of an operator matters to what stands on its right. -/
theorem attached_append_operator :
    Attached (r ++ .operator op :: l) ↔ Attached r ∧ Attached (.operator op :: l) := by
  induction r with
  | nil => exact (iff_of_eq (true_and _)).symm
  | cons item r ih =>
    have hbegins : beginsWithOperand (r ++ .operator op :: l) = beginsWithOperand r := by
      cases r <;> rfl
    simp only [List.cons_append, Attached, hbegins, and_assoc] at ih ⊢
    rw [ih]

/-- The same for a list and an operator read from the left. -/
theorem attached_reverse_operator :
    Attached (l ++ .operator op :: r).reverse ↔
      Attached r.reverse ∧ Attached (.operator op :: l.reverse) := by
  rw [List.reverse_append, List.reverse_cons, List.append_assoc, List.singleton_append]
  exact attached_append_operator

/-- What comes before in an attached list is attached. -/
theorem Attached.of_append {front : List Item} (h : Attached (front ++ passed)) :
    Attached passed := by
  induction front with
  | nil => exact h
  | cons _ _ ih => exact ih h.2

/-- The end of a list is the front of its reverse. -/
theorem endsInOperand_iff : EndsInOperand items ↔ beginsWithOperand items.reverse = true := by
  rw [EndsInOperand, ← List.head?_reverse]
  match items.reverse with
  | [] => simp
  | .expr e :: _ => simp [Item.isOperand]
  | .operator _ :: _ => simp [Item.isOperand]
  | .dot :: _ => simp [Item.isOperand]

/-! ### The pass -/

/-- The pass replaces unaries and attaches every `**` that it leaves. -/
theorem Pass.replaced_unary (h : Pass prefixTier passed items out) {raw : List Item}
    (hraw : Replaced Unary raw passed.reverse) (hpassed : Attached passed) :
    Replaced Unary (raw ++ items) out ∧ Attached out.reverse := by
  induction h generalizing raw with
  | done =>
    rw [List.append_nil, List.reverse_reverse]
    exact ⟨hraw, hpassed⟩
  | @skip passed rest out item hskip _ ih =>
    have hitem : Replaced Unary [item] [item] := .item .operand item
    have h := @ih (raw ++ [item]) (by rw [List.reverse_cons]; exact hraw.append hitem)
      ⟨fun heq => (hskip _ (List.mem_singleton.mpr rfl) heq).2, hpassed⟩
    rwa [List.append_assoc] at h
  | @fold passed passed' rest rest' out op left right hop hleft hright _ ih =>
    cases List.mem_singleton.mp hop
    cases hleft with
    | operand htier => cases htier
    | implicit _ ha =>
      cases ha
      cases hright with
      | implicit _ hb => cases hb
      | operand =>
        have h := @ih (raw ++ [.operator .power, .expr right])
          (by
            rw [List.reverse_cons]
            exact hraw.append (Replaced.single_iff.mpr (.prefixed right)))
          ⟨nofun, hpassed⟩
        rwa [List.append_assoc] at h

/-- A replacement of unaries that leaves operands apart and powers attached is what the pass
does. -/
theorem pass_of_replaced_unary (h : Replaced Unary items out) (hout : Separated out)
    (hattached : Attached (out.reverse ++ passed))
    (hpassed : beginsWithOperand passed = false ∨ beginsWithOperand out = false) :
    Pass prefixTier passed items (passed.reverse ++ out) := by
  induction h generalizing passed with
  | nil =>
    rw [List.append_nil]
    exact .done
  | @keep item rest out hitem _ ih =>
    rw [List.reverse_cons, List.append_assoc, List.singleton_append] at hattached
    have hskip : Skips prefixTier passed item := fun op hop heq =>
      ⟨rfl, hattached.of_append.1 (by rw [heq, List.mem_singleton.mp hop])⟩
    have h := @ih (item :: passed) hout.2 hattached (.inl hitem)
    rw [List.reverse_cons, List.append_assoc] at h
    exact .skip hskip h
  | @phrase l rest out e hl h ih =>
    rw [List.reverse_cons, List.append_assoc, List.singleton_append] at hattached
    have h := @ih (.expr e :: passed) hout.2 hattached (.inr (hout.1 rfl))
    rw [List.reverse_cons, List.append_assoc] at h
    cases hl with
    | operand => exact .skip (fun _ _ => nofun) h
    | prefixed e =>
      -- with an operand on its left the sign would be left to the tier of the powers
      have hno : beginsWithOperand passed = false :=
        hpassed.resolve_right (by simp [Item.isOperand])
      exact .fold (List.mem_singleton.mpr rfl) (.implicit hno rfl) .operand h

/-! ### Attached phrases -/

/-- The powers of a level whose prefixes have been folded, or have not been told apart yet. -/
def PowerOrPrefix (Rng : Phrase) : Phrase :=
  Chain (oneOf [.power]) (Signed [.power] .nothing Rng) Rng

/-- `F'` holds of the attached lists of which `F` holds. -/
def Guards (F' F : Phrase) : Prop :=
  ∀ items e, F' items e ↔ F items e ∧ Attached items.reverse

section

variable {Head' Head Operand' Operand F' F : Phrase} {Joins' Joins : Junction}
  {ops : List Operator}

/-- A chain is attached iff its parts are and every operator that joins them is. -/
theorem guards_chain (hhead : Guards Head' Head) (hoperand : Guards Operand' Operand)
    (hjoins : ∀ {l op r}, Attached l.reverse →
      (Joins' l op r ↔ Joins l op r ∧ Attached (.operator op :: l.reverse))) :
    Guards (Chain Joins' Head' Operand') (Chain Joins Head Operand) := by
  intro items e
  -- along the chain in both directions; the condition on an operator looks at all that stands
  -- before it
  constructor
  · intro h
    induction h with
    | head h =>
      obtain ⟨h, hattached⟩ := (hhead _ _).mp h
      exact ⟨.head h, hattached⟩
    | more _ hop hr ih =>
      obtain ⟨hop, hl⟩ := (hjoins ih.2).mp hop
      obtain ⟨hr, hattached⟩ := (hoperand _ _).mp hr
      exact ⟨.more ih.1 hop hr, attached_reverse_operator.mpr ⟨hattached, hl⟩⟩
  · rintro ⟨h, hattached⟩
    induction h with
    | head h => exact .head ((hhead _ _).mpr ⟨h, hattached⟩)
    | more _ hop hr ih =>
      obtain ⟨hattached, hl⟩ := attached_reverse_operator.mp hattached
      exact .more (ih hl.2) ((hjoins hl.2).mpr ⟨hop, hl⟩) ((hoperand _ _).mpr ⟨hr, hattached⟩)

/-- Operators other than `**` do not matter. -/
theorem guards_oneOf (hops : .power ∉ ops) (hhead : Guards Head' Head)
    (hoperand : Guards Operand' Operand) :
    Guards (Chain (oneOf ops) Head' Operand') (Chain (oneOf ops) Head Operand) := by
  refine guards_chain hhead hoperand fun hl => ⟨fun hop => ⟨hop, ?_, hl⟩, And.left⟩
  rintro ⟨⟩
  exact absurd hop hops

/-- A sign that is no power needs no operand before it. -/
theorem guards_signed {left : Expr} (hops : .power ∉ ops) (h : Guards F' F) :
    Guards (Signed ops left F') (Signed ops left F) := by
  have hsign {op : Operator} {items : List Item} (hop : op ∈ ops) :
      Attached (Item.operator op :: items).reverse ↔ Attached items.reverse := by
    rw [List.reverse_cons, attached_append_operator]
    refine and_iff_left ⟨?_, trivial⟩
    rintro ⟨⟩
    exact absurd hop hops
  intro items e
  constructor
  · rintro (hF | ⟨hop, hF⟩)
    · obtain ⟨hF, hattached⟩ := (h _ _).mp hF
      exact ⟨.plain hF, hattached⟩
    · obtain ⟨hF, hattached⟩ := (h _ _).mp hF
      exact ⟨.signed hop hF, (hsign hop).mpr hattached⟩
  · rintro ⟨hF | ⟨hop, hF⟩, hattached⟩
    · exact .plain ((h _ _).mpr ⟨hF, hattached⟩)
    · exact .signed hop ((h _ _).mpr ⟨hF, (hsign hop).mp hattached⟩)

end

theorem attached_bound {e : Expr} (h : Bound Single items e) : Attached items.reverse := by
  rcases h with _ | ⟨⟨⟩⟩
  · trivial
  · exact ⟨nofun, trivial⟩

/-- A range over single operands contains no power. -/
theorem attached_ranged {e : Expr} (h : Ranged Single items e) : Attached items.reverse := by
  have hrange {l r : List Item} (hl : Attached l.reverse) (hr : Attached r.reverse) :
      Attached (l ++ .operator .range :: r).reverse :=
    attached_reverse_operator.mpr ⟨hr, nofun, hl⟩
  rcases h with ⟨⟨⟩⟩ | h
  · exact ⟨nofun, trivial⟩
  · induction h with
    | first hl hr => exact hrange (attached_bound hl) (attached_bound hr)
    | next _ hr ih => exact hrange ih (attached_bound hr)

/-- An attached list has no `**` at its front, and one between two ranges only after an operand. -/
theorem guards_power :
    Guards (Power afterOperand (Ranged Single)) (PowerOrPrefix (Ranged Single)) := by
  refine guards_chain ?_ (fun items e => (and_iff_left_of_imp attached_ranged).symm) ?_
  -- the head of the chain may not be a prefix, since nothing stands before it
  · intro items e
    constructor
    · exact fun h => ⟨.plain h, attached_ranged h⟩
    · rintro ⟨h | ⟨hop, h⟩, hattached⟩
      · exact h
      · cases List.mem_singleton.mp hop
        rw [List.reverse_cons, attached_append_operator] at hattached
        exact absurd (hattached.2.1 rfl) Bool.false_ne_true
  · intro l op r hl
    constructor
    · rintro ⟨rfl, hends⟩
      exact ⟨List.mem_singleton.mpr rfl, fun _ => endsInOperand_iff.mp hends, hl⟩
    · rintro ⟨hop, hattached⟩
      cases List.mem_singleton.mp hop
      exact ⟨rfl, endsInOperand_iff.mpr (hattached.1 rfl)⟩

/-- The levels above powers keep the condition, since none of their operators is a power. -/
theorem guards_abovePowers {Pow' Pow : Phrase} (h : Guards Pow' Pow) :
    Guards (AbovePowers Pow') (AbovePowers Pow) := by
  have hproduct : Guards (Product Pow') (Product Pow) := guards_oneOf (by decide) h h
  have hsum : Guards (Sum (Product Pow')) (Sum (Product Pow)) :=
    guards_oneOf (by decide) (guards_signed (by decide) hproduct) hproduct
  have hcomparison : Guards (Comparison (Sum (Product Pow'))) (Comparison (Sum (Product Pow))) :=
    guards_oneOf (by decide) hsum hsum
  exact guards_oneOf (by decide) hcomparison hcomparison

end Folding
end PixelCalc
