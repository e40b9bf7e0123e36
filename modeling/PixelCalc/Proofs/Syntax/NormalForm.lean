import Mathlib.Data.List.Chain
import PixelCalc.Proofs.Syntax.Resolution

/-!
# Folding reaches a normal form

A segment that has been folded is settled. The last tiers have taken all operators, and since a pass
only ever puts an operation in the place of items that stand together, no name comes to stand right
before a group after the calls are made. Folding leaves a settled segment as it is, and so a group
that is folded stays the same when it is folded again.

- `Group.parts`: the contents of a pair of brackets as one list, with the commas in it;
  `text_eq_parts` says that they are what the text of the group shows.
- `Group.IsNormal`: the group has a normal form.
- `Expr.Holds`: the groups at any depth of an expression.
- `Settled`: a segment with nothing left to fold. `foldSegment_settled` says that folding settles,
  and `Settled.foldSegment_eq` that it keeps what is settled.
- `Fixed`: a segment that stays as it is, the groups in it included; `Settled.fixed`.
- `resolve_normal_form`: what is folded from tokens is normal at every depth, and a group that has
  been folded is folded to itself.
-/

namespace PixelCalc

/-! ### Normal groups -/

/-- A part of a group as it stands between its brackets. -/
inductive Part where
  | item (item : Item)
  | comma

namespace Part

/-- The text of a part. -/
def text : Part → String
  | item i => i.text
  | comma => ","

/-- Segments as groups of their own with commas between them. -/
def separated (segments : List (List Item)) : List Part :=
  (segments.map fun segment => .item (.expr (Group.single segment).toExpr)).intersperse .comma

end Part

namespace Group

/-- The contents of a pair of brackets. -/
def parts (g : Group) : List Part :=
  if g.hasComma then Part.separated g.segments else g.first.map .item

/-- No operator is left, no name stands right before a group, and commas are where the group is
marked to have them. -/
structure IsNormal (g : Group) : Prop where
  no_operator (op : Operator) : .item (.operator op) ∉ g.parts
  no_call (n : String) (first : List Item) (more : List (List Item)) :
    ¬[.item (.expr (.name n)), .item (.expr (.group first more))] <:+: g.parts
  comma : .comma ∈ g.parts → g.hasComma = true

/-- A comma between blanks is an element that blanks separate. -/
theorem intercalate_segmentTexts : ∀ segments : List (List Item),
    " , ".intercalate (segmentTexts segments) =
      " ".intercalate ((Part.separated segments).map Part.text)
  | [] => rfl
  | [_] => rfl
  | first :: second :: rest => by
    have hparts : Part.separated (first :: second :: rest) =
        .item (.expr (single first).toExpr) :: .comma :: Part.separated (second :: rest) :=
      List.intersperse_cons_cons
    have hrest : (Part.separated (second :: rest)).map Part.text ≠ [] := by
      cases rest <;> simp [Part.separated]
    have ih := intercalate_segmentTexts (second :: rest)
    rw [hparts, List.map_cons, List.map_cons, String.intercalate_cons_cons,
      String.intercalate_cons_of_ne_nil hrest, ← ih, segmentTexts, segmentTexts,
      String.intercalate_cons_cons]
    show _ ++ (" " ++ "," ++ " ") ++ _ = _
    simp only [← String.append_assoc]
    rfl

/-- The text of a group is that of its parts with blanks between them. -/
theorem text_eq_parts (g : Group) :
    g.text = "(" ++ " ".intercalate (g.parts.map Part.text) ++ ")" := by
  obtain ⟨first, more⟩ := g
  cases more with
  | nil =>
    have hitems (items : List Item) : itemTexts items = (items.map Part.item).map Part.text := by
      induction items with
      | nil => rfl
      | cons item items ih =>
        rw [itemTexts, ih]
        rfl
    show "(" ++ " ".intercalate (itemTexts first) ++ ")" = _
    rw [hitems]
    rfl
  | cons second more =>
    show "(" ++ " , ".intercalate (segmentTexts (first :: second :: more)) ++ ")" = _
    rw [intercalate_segmentTexts]
    rfl

end Group

/-- The groups in an expression, the expression itself included, at any depth. Between commas every
segment is a group of its own. -/
inductive Expr.Holds : Expr → Group → Prop
  | self (first : List Item) (more : List (List Item)) : Holds (.group first more) ⟨first, more⟩
  | segment {first segment : List Item} {more : List (List Item)} (hmore : more ≠ [])
      (hsegment : segment ∈ first :: more) : Holds (.group first more) (.single segment)
  | item {first segment : List Item} {more : List (List Item)} {e : Expr} {g : Group}
      (hsegment : segment ∈ first :: more) (hitem : .expr e ∈ segment) (h : e.Holds g) :
      Holds (.group first more) g
  | left {op : Operator} {left right : Expr} {g : Group} (h : left.Holds g) :
      Holds (.operation op left right) g
  | right {op : Operator} {left right : Expr} {g : Group} (h : right.Holds g) :
      Holds (.operation op left right) g
  | argument {n : String} {arguments : List Expr} {a : Expr} {g : Group} (ha : a ∈ arguments)
      (h : a.Holds g) : Holds (.call n arguments) g

/-! ### Settled segments -/

/-- The two items are no name right before a group. -/
def Item.Apart (a b : Item) : Prop :=
  ∀ n first more, a = .expr (.name n) → b ≠ .expr (.group first more)

namespace Folding

/-- A segment in which there is nothing to fold. -/
structure Settled (items : List Item) : Prop where
  no_operator (op : Operator) : .operator op ∉ items
  apart : items.IsChain Item.Apart

variable {passed passed' items rest rest' out segment first before after : List Item}
  {more segments : List (List Item)} {tier : Tier} {op : Operator} {left right e : Expr}

/-- An expression that is neither a name nor a group is apart from what stands around it. -/
theorem isChain_replaced (hname : ∀ n, e ≠ .name n) (hgroup : ∀ first more, e ≠ .group first more)
    (hbefore : before.IsChain Item.Apart) (hafter : after.IsChain Item.Apart) :
    (before ++ .expr e :: after).IsChain Item.Apart := by
  refine hbefore.append (hafter.cons fun b _ n first more heq => ?_)
    fun a _ b hb n first more _ heq => ?_
  · exact absurd (Item.expr.inj heq) (hname n)
  · have hb : b = .expr e := (Option.mem_some.mp hb).symm
    exact hgroup first more (Item.expr.inj (hb.symm.trans heq))

/-! ### Calls leave no name before a group -/

/-- Placing a group leaves no name right before a group: the name is taken into the call, or there
was none. -/
theorem placeGroup_apart (h : placeGroup first more passed = .ok passed')
    (hpassed : passed.reverse.IsChain Item.Apart) : passed'.reverse.IsChain Item.Apart := by
  have hcall {n : String} {arguments : List Expr} {before : List Item}
      (hbefore : before.reverse.IsChain Item.Apart) :
      (Item.expr (.call n arguments) :: before).reverse.IsChain Item.Apart := by
    rw [List.reverse_cons]
    exact isChain_replaced nofun nofun hbefore List.isChain_nil
  unfold placeGroup at h
  split at h
  · cases h
    simp only [List.reverse_cons, List.append_assoc] at hpassed
    exact hcall hpassed.left_of_append
  · cases h
  · cases h
  · cases h
    rw [List.reverse_cons] at hpassed
    exact hcall hpassed.left_of_append
  · rename_i hname
    cases h
    rw [List.reverse_cons]
    refine hpassed.append (List.isChain_singleton _) fun a ha b _ n _ _ heq => ?_
    rw [List.getLast?_reverse] at ha
    obtain ⟨before, hbefore⟩ := List.head?_eq_some_iff.mp ha
    exact (hname n before (heq ▸ hbefore)).elim

/-- After the pass that forms calls no name stands right before a group. -/
theorem foldCalls_apart (h : foldCalls passed items = .ok out)
    (hpassed : passed.reverse.IsChain Item.Apart) : out.IsChain Item.Apart := by
  fun_induction foldCalls passed items with
  | case1 =>
    cases h
    exact hpassed
  | case2 passed first more rest passed' hplace ih => exact ih h (placeGroup_apart hplace hpassed)
  | case3 => cases h
  | case4 passed item rest hitem ih =>
    refine ih h ?_
    rw [List.reverse_cons]
    refine hpassed.append (List.isChain_singleton _) fun a _ b hb n first more _ heq => ?_
    have hb : b = item := (Option.mem_some.mp hb).symm
    exact hitem first more (hb.symm.trans heq)

/-! ### Tiers keep it so and take all operators -/

/-- A left operand is taken off the end of the items passed. -/
theorem TakesLeft.suffix (h : TakesLeft tier op passed left passed') : passed' <:+ passed := by
  cases h with
  | operand => exact List.suffix_cons ..
  | implicit => exact List.suffix_rfl

theorem TakesRight.suffix (h : TakesRight op rest right rest') : rest' <:+ rest := by
  cases h with
  | operand => exact List.suffix_cons ..
  | implicit => exact List.suffix_rfl

/-- An operation is no name, so it is never called. -/
theorem operation_ne_name (op : Operator) (left right : Expr) (n : String) :
    operation op left right ≠ .name n := by
  unfold operation
  split <;> nofun

theorem operation_ne_group (op : Operator) (left right : Expr) (first : List Item)
    (more : List (List Item)) : operation op left right ≠ .group first more := by
  unfold operation
  split <;> nofun

/-- An operation takes the place of items that stand together. -/
theorem Pass.apart (h : Pass tier passed items out)
    (hall : (passed.reverse ++ items).IsChain Item.Apart) : out.IsChain Item.Apart := by
  induction h with
  | done =>
    rw [List.append_nil] at hall
    exact hall
  | skip _ _ ih =>
    refine ih ?_
    rw [List.reverse_cons, ← List.append_cons]
    exact hall
  | @fold passed passed' rest rest' out op left right _ hleft hright _ ih =>
    -- the operands are the last of what was passed and the first of what is to come
    have hbefore : passed'.reverse.IsChain Item.Apart :=
      List.IsChain.prefix hall.left_of_append (List.reverse_prefix.mpr hleft.suffix)
    have hafter : rest'.IsChain Item.Apart := hall.right_of_append.tail.suffix hright.suffix
    refine ih ?_
    rw [List.reverse_cons, ← List.append_cons]
    exact isChain_replaced (operation_ne_name op left right) (operation_ne_group op left right)
      hbefore hafter

/-- Operators are not made by a pass, and only a pass that binds prefixes leaves any of its own. -/
theorem Pass.operator_mem (h : Pass tier passed items out) {op : Operator}
    (hop : .operator op ∈ out) :
    .operator op ∈ passed ∨
      .operator op ∈ items ∧ (op ∈ tier.operators → tier.prefixOnly = true) := by
  -- Induction along the pass. An operator in the result was passed over, which a tier does only to
  -- one that it does not take or, if it takes prefix operators only, to one with a left operand.
  induction h with
  | done => exact .inl (List.mem_reverse.mp hop)
  | @skip passed rest out item hitem _ ih =>
    rcases ih hop with hmem | ⟨hmem, honly⟩
    · rcases List.mem_cons.mp hmem with heq | hmem
      · exact .inr ⟨heq ▸ List.mem_cons_self, fun htier => (hitem op htier heq.symm).1⟩
      · exact .inl hmem
    · exact .inr ⟨List.mem_cons_of_mem _ hmem, honly⟩
  | fold _ hleft hright _ ih =>
    rcases ih hop with hmem | ⟨hmem, honly⟩
    · rcases List.mem_cons.mp hmem with heq | hmem
      · cases heq
      · exact .inl (hleft.suffix.subset hmem)
    · exact .inr ⟨List.mem_cons_of_mem _ (hright.suffix.subset hmem), honly⟩

/-- No tier brings a name before a group. -/
theorem foldTiers_apart {tiers : List Tier} (h : foldTiers tiers items = .ok out)
    (hall : items.IsChain Item.Apart) : out.IsChain Item.Apart := by
  induction tiers generalizing items with
  | nil =>
    cases h
    exact hall
  | cons tier tiers ih =>
    obtain ⟨items', hpass, h⟩ := foldTiers_cons_iff.mp h
    exact ih h (hpass.apart hall)

/-- An operator that several tiers leave is one of the prefixes in each of them that it binds in. -/
theorem foldTiers_operator_mem {tiers : List Tier} (h : foldTiers tiers items = .ok out)
    (hop : .operator op ∈ out) :
    .operator op ∈ items ∧ ∀ tier ∈ tiers, op ∈ tier.operators → tier.prefixOnly = true := by
  induction tiers generalizing items with
  | nil =>
    cases h
    exact ⟨hop, fun _ htier => absurd htier List.not_mem_nil⟩
  | cons tier tiers ih =>
    obtain ⟨items', hpass, h⟩ := foldTiers_cons_iff.mp h
    obtain ⟨hmem, hall⟩ := ih h
    rcases hpass.operator_mem hmem with hmem | ⟨hmem, honly⟩
    · exact absurd hmem List.not_mem_nil
    · exact ⟨hmem, List.forall_mem_cons.mpr ⟨honly, hall⟩⟩

/-- A segment that is folded is settled. -/
theorem foldSegment_settled (h : foldSegment items = .ok out) : Settled out := by
  unfold foldSegment at h
  split at h
  · rename_i called hcalls
    refine ⟨fun op hop => ?_, foldTiers_apart h (foldCalls_apart hcalls List.isChain_nil)⟩
    obtain ⟨tier, htier, hmem, hboth⟩ := exists_tier op
    have honly := (foldTiers_operator_mem h hop).2 tier htier hmem
    exact Bool.noConfusion (hboth.symm.trans honly)
  · cases h

/-! ### Nothing is folded in what is settled -/

/-- A group stays as it is where no name stands before it. -/
theorem placeGroup_of_apart (h : (passed.reverse ++ .expr (.group first more) :: rest).IsChain
    Item.Apart) : placeGroup first more passed = .ok (.expr (.group first more) :: passed) := by
  have hname (n : String) (before : List Item) : passed ≠ .expr (.name n) :: before := by
    rintro rfl
    rw [List.reverse_cons, ← List.append_cons] at h
    exact (List.isChain_append_cons_cons.mp h).2.1 n first more rfl rfl
  unfold placeGroup
  split
  · exact absurd rfl (hname _ _)
  · exact absurd rfl (hname _ _)
  · exact absurd rfl (hname _ _)
  · exact absurd rfl (hname _ _)
  · rfl

/-- The pass that forms calls finds nothing to do. -/
theorem foldCalls_of_apart (h : (passed.reverse ++ items).IsChain Item.Apart) :
    foldCalls passed items = .ok (passed.reverse ++ items) := by
  fun_induction foldCalls passed items with
  | case1 => rw [List.append_nil]
  | case2 passed first more rest passed' hplace ih =>
    cases hplace.symm.trans (placeGroup_of_apart h)
    rw [List.reverse_cons, ← List.append_cons] at ih
    exact ih h
  | case3 passed first more rest fault hplace => cases hplace.symm.trans (placeGroup_of_apart h)
  | case4 passed item rest _ ih =>
    rw [List.reverse_cons, ← List.append_cons] at ih
    exact ih h

/-- A tier finds nothing to do among items without operators. -/
theorem pass_of_no_operator (h : ∀ op, .operator op ∉ items) (passed : List Item) :
    Pass tier passed items (passed.reverse ++ items) := by
  induction items generalizing passed with
  | nil =>
    rw [List.append_nil]
    exact .done
  | cons item rest ih =>
    have hrest := ih (fun op hop => h op (List.mem_cons_of_mem _ hop)) (item :: passed)
    rw [List.reverse_cons, ← List.append_cons] at hrest
    exact .skip (fun op _ heq => absurd (heq ▸ List.mem_cons_self) (h op)) hrest

/-- Nor do all tiers. -/
theorem foldTiers_of_no_operator (h : ∀ op, .operator op ∉ items) (tiers : List Tier) :
    foldTiers tiers items = .ok items := by
  induction tiers with
  | nil => rfl
  | cons tier tiers ih => exact foldTiers_cons_iff.mpr ⟨items, pass_of_no_operator h [], ih⟩

/-- Folding keeps what is settled. -/
theorem Settled.foldSegment_eq (h : Settled items) : foldSegment items = .ok items := by
  unfold foldSegment
  have hcalls : foldCalls [] items = .ok items := foldCalls_of_apart h.apart
  rw [hcalls]
  exact foldTiers_of_no_operator h.no_operator tiers

/-! ### What is folded already stays the same -/

/-- A segment that stays as it is when it is folded, the groups in it included. -/
def Fixed (segment : List Item) : Prop :=
  (resolveItems segment >>= foldSegment) = .ok segment

/-- If the expression is a group, its segments stay as they are. -/
def FixedGroup (e : Expr) : Prop :=
  ∀ first more, e = .group first more → ∀ segment ∈ first :: more, Fixed segment

/-- Segments that stay as they are, one by one, stay so together. -/
theorem resolveSegments_of_fixed (h : ∀ segment ∈ segments, Fixed segment) :
    resolveSegments segments = .ok segments := by
  induction segments with
  | nil => rw [resolveSegments]
  | cons segment segments ih =>
    obtain ⟨hsegment, hrest⟩ := List.forall_mem_cons.mp h
    obtain ⟨inner, hinner, hfold⟩ := bind_eq_ok hsegment
    rw [resolveSegments, hinner]
    show (foldSegment inner >>= _) = _
    rw [hfold, ih hrest]
    rfl

/-- Items stay as they are if the groups among them do. -/
theorem resolveItems_of_fixed (h : AllItems FixedGroup items) : resolveItems items = .ok items := by
  induction items with
  | nil => rw [resolveItems]
  | cons item rest ih =>
    obtain ⟨hitem, hrest⟩ := AllItems.cons_iff.mp h
    by_cases hgroup : ∃ first more, item = .expr (.group first more)
    · obtain ⟨first, more, rfl⟩ := hgroup
      obtain ⟨hfirst, hmore⟩ := List.forall_mem_cons.mp (hitem _ rfl first more rfl)
      obtain ⟨inner, hinner, hfold⟩ := bind_eq_ok hfirst
      rw [resolveItems, hinner]
      show (foldSegment inner >>= _) = _
      rw [hfold, resolveSegments_of_fixed hmore, ih hrest]
      rfl
    · rw [resolveItems, ih hrest]
      · rfl
      · exact fun first more heq => hgroup ⟨first, more, heq⟩

/-- A settled segment stays as it is if the groups in it do. -/
theorem Settled.fixed (h : Settled items) (hitems : AllItems FixedGroup items) : Fixed items := by
  unfold Fixed
  rw [resolveItems_of_fixed hitems]
  exact h.foldSegment_eq

/-- What folding makes of fixed groups holds none that is not fixed: an operation or a call is no
group. -/
theorem foldKept_fixedGroup : FoldKept FixedGroup where
  operation _ _ := fun first more heq => absurd heq (operation_ne_group _ _ _ first more)
  call _ := nofun
  segment {first more} h segment hsegment := by
    rintro _ _ ⟨⟩
    exact List.forall_mem_singleton.mpr (h first more rfl segment hsegment)

/-- A folded segment is settled, so with fixed groups in it the whole stays as it is. -/
theorem foldSegment_fixed (hfold : foldSegment items = .ok out)
    (hitems : AllItems FixedGroup items) : Fixed out :=
  (foldSegment_settled hfold).fixed (foldSegment_kept foldKept_fixedGroup hfold hitems)

mutual

/-- The groups among the items stay as they are once they are folded. -/
theorem resolveItems_fixed : ∀ {items out : List Item}, resolveItems items = .ok out →
    AllItems FixedGroup out
  | [], out, h => by
    cases resolveItems_nil_inv h
    exact .nil
  | .expr (.group first more) :: rest, out, h => by
    -- the segments of a group are folded after the groups in them, and so are fixed
    obtain ⟨inner, folded, segments, rest', hinner, hfold, hsegments, hrest, rfl⟩ :=
      resolveItems_group_inv h
    refine AllItems.cons_expr_iff.mpr ⟨?_, resolveItems_fixed hrest⟩
    rintro _ _ ⟨⟩
    exact List.forall_mem_cons.mpr
      ⟨foldSegment_fixed hfold (resolveItems_fixed hinner), resolveSegments_fixed hsegments⟩
  | .expr (.number _) :: rest, out, h | .expr .nothing :: rest, out, h
  | .expr (.name _) :: rest, out, h | .expr (.target _) :: rest, out, h
  | .expr (.operation _ _ _) :: rest, out, h | .expr (.call _ _) :: rest, out, h
  | .operator _ :: rest, out, h | .dot :: rest, out, h => by
    obtain ⟨rest', hrest, rfl⟩ := resolveItems_cons_inv (by simp) h
    exact AllItems.cons_iff.mpr ⟨by simp [FixedGroup], resolveItems_fixed hrest⟩

/-- Segments stay as they are once they are folded. -/
theorem resolveSegments_fixed : ∀ {segments out : List (List Item)},
    resolveSegments segments = .ok out → ∀ segment ∈ out, Fixed segment
  | [], out, h => by
    cases resolveSegments_nil_inv h
    exact List.forall_mem_nil _
  | segment :: segments, out, h => by
    obtain ⟨inner, folded, rest, hinner, hfold, hrest, rfl⟩ := resolveSegments_cons_inv h
    exact List.forall_mem_cons.mpr
      ⟨foldSegment_fixed hfold (resolveItems_fixed hinner), resolveSegments_fixed hrest⟩

end

end Folding

open Folding

/-! ### Groups at any depth -/

variable {first segment : List Item} {more : List (List Item)} {g : Group} {Q : Group → Prop}

/-- A group of fixed segments is folded to itself. -/
theorem Group.resolve_of_fixed (h : ∀ segment ∈ g.segments, Fixed segment) : g.resolve = .ok g := by
  obtain ⟨hfirst, hmore⟩ := List.forall_mem_cons.mp h
  obtain ⟨inner, hinner, hfold⟩ := bind_eq_ok hfirst
  unfold Group.resolve
  rw [hinner]
  show (foldSegment inner >>= _) = _
  rw [hfold, resolveSegments_of_fixed hmore]
  rfl

/-- To fold a group a second time changes nothing. -/
theorem Group.resolve_resolve {g r : Group} (h : g.resolve = .ok r) : r.resolve = .ok r := by
  obtain ⟨items, hitems, hfirst, hmore⟩ := resolve_inv h
  exact Group.resolve_of_fixed (List.forall_mem_cons.mpr
    ⟨foldSegment_fixed hfirst (resolveItems_fixed hitems), resolveSegments_fixed hmore⟩)

/-- Between separators stand the elements of a list. -/
theorem eq_or_mem_of_mem_intersperse {α : Type} {sep x : α} :
    ∀ {xs : List α}, x ∈ xs.intersperse sep → x = sep ∨ x ∈ xs
  | [], h => absurd h List.not_mem_nil
  | [_], h => .inr h
  | y :: z :: rest, h => by
    rw [List.intersperse_cons_cons] at h
    rcases List.mem_cons.mp h with rfl | h
    · exact .inr List.mem_cons_self
    · rcases List.mem_cons.mp h with rfl | h
      · exact .inl rfl
      · exact (eq_or_mem_of_mem_intersperse h).imp_right (List.mem_cons_of_mem y)

/-- Where there are commas, all parts are commas and groups. -/
theorem Group.mem_parts_of_comma {p : Part} (hmore : more ≠ [])
    (hp : p ∈ (Group.mk first more).parts) :
    p = .comma ∨ ∃ segment, p = .item (.expr (.group segment [])) := by
  have hcomma : (Group.mk first more).hasComma = true := by
    cases more with
    | nil => exact absurd rfl hmore
    | cons second more => rfl
  rw [parts, if_pos hcomma] at hp
  refine (eq_or_mem_of_mem_intersperse hp).imp_right fun hp => ?_
  obtain ⟨segment, -, rfl⟩ := List.mem_map.mp hp
  exact ⟨segment, rfl⟩

/-- A group whose segments are settled is normal. -/
theorem Group.isNormal_of_settled (h : ∀ segment ∈ first :: more, Settled segment) :
    (Group.mk first more).IsNormal := by
  cases more with
  | nil =>
    have hsettled := h first List.mem_cons_self
    have hparts : (Group.mk first []).parts = first.map .item := rfl
    refine ⟨fun op hop => ?_, fun n inner rest hpair => ?_, fun hcomma => ?_⟩
    · obtain ⟨item, hitem, heq⟩ := List.mem_map.mp (hparts ▸ hop)
      cases heq
      exact hsettled.no_operator op hitem
    · obtain ⟨items, hitems, heq⟩ := List.infix_map_iff.mp (hparts ▸ hpair)
      have hmap : items.map Part.item =
          [Item.expr (.name n), .expr (.group inner rest)].map Part.item := heq.symm
      cases List.map_injective_iff.mpr (fun _ _ => Part.item.inj) hmap
      have hapart := List.IsChain.infix hsettled.apart hitems
      exact List.isChain_pair.mp hapart n inner rest rfl rfl
    · obtain ⟨item, -, heq⟩ := List.mem_map.mp (hparts ▸ hcomma)
      cases heq
  | cons second more =>
    -- with commas there are neither operators nor names among the parts, whatever the segments are
    have hmore : second :: more ≠ [] := List.cons_ne_nil second more
    refine ⟨fun op hop => ?_, fun n inner rest hpair => ?_, fun _ => rfl⟩
    · rcases mem_parts_of_comma hmore hop with heq | ⟨segment, heq⟩ <;> cases heq
    · have hname := hpair.subset List.mem_cons_self
      rcases mem_parts_of_comma hmore hname with heq | ⟨segment, heq⟩ <;> cases heq

namespace Expr.Holds

/-- A segment of a group is a group in it. -/
theorem of_segment (hsegment : segment ∈ first :: more) (h : (Expr.group segment []).Holds g) :
    (Expr.group first more).Holds g := by
  cases h with
  | self =>
    cases more with
    | nil =>
      cases List.mem_singleton.mp hsegment
      exact .self _ _
    | cons second more => exact .segment (List.cons_ne_nil second more) hsegment
  | segment hmore => exact absurd rfl hmore
  | item hmem hitem h =>
    cases List.mem_singleton.mp hmem
    exact .item hsegment hitem h

/-- A group in an operation is one in an operand. -/
theorem of_operation {op : Operator} {left right : Expr}
    (h : (Folding.operation op left right).Holds g) : left.Holds g ∨ right.Holds g := by
  unfold Folding.operation at h
  split at h
  · cases h with
    | left h => cases h
    | right h => exact .inr h
  · cases h with
    | left h => exact .inl h
    | right h => exact .inr h

end Expr.Holds

theorem not_holds_implicitLeft {op : Operator} {left : Expr} (h : implicitLeft op = some left) :
    ¬left.Holds g := by
  intro hheld
  cases op <;> cases h <;> cases hheld

/-- A bound that is filled in holds no group. -/
theorem not_holds_implicitRight {op : Operator} {right : Expr}
    (h : implicitRight op = some right) : ¬right.Holds g := by
  intro hheld
  cases op <;> cases h
  cases hheld

/-- What holds of all groups in an expression is kept when it is folded. -/
theorem foldKept_holds : FoldKept fun e => ∀ g, e.Holds g → Q g where
  operation {op left right} hl hr g h := by
    rcases h.of_operation with hheld | hheld
    -- an operand was there before or was filled in; only the first holds groups
    · rcases hl with hl | hl
      · exact hl g hheld
      · exact absurd hheld (not_holds_implicitLeft hl)
    · rcases hr with hr | hr
      · exact hr g hheld
      · exact absurd hheld (not_holds_implicitRight hr)
  call h g hheld := by
    cases hheld with
    | argument ha hheld => exact h _ ha g hheld
  segment h segment hsegment g hheld := h g (hheld.of_segment hsegment)

/-- The segments of a group are settled and stay as they are. -/
def Group.IsFolded (g : Group) : Prop :=
  ∀ segment ∈ g.segments, Settled segment ∧ Fixed segment

/-- A folded group is normal, since its segments are settled. -/
theorem Group.IsFolded.isNormal (h : g.IsFolded) : g.IsNormal :=
  isNormal_of_settled fun segment hsegment => (h segment hsegment).1

theorem Group.IsFolded.resolve_eq (h : g.IsFolded) : g.resolve = .ok g :=
  resolve_of_fixed fun segment hsegment => (h segment hsegment).2

/-- All groups in the expression are folded. -/
def Expr.IsFolded (e : Expr) : Prop :=
  ∀ g, e.Holds g → g.IsFolded

/-- An expression whose groups are folded is, if it is a group, fixed. -/
theorem Expr.IsFolded.fixedGroup {e : Expr} (h : e.IsFolded) : FixedGroup e := by
  rintro first more rfl segment hsegment
  exact (h ⟨first, more⟩ (.self first more) segment hsegment).2

/-- Every tree that is built up from folded segments has folded groups only. This is the induction
behind the theorem below, with one case for each way to build a tree. -/
theorem builtUp_isFolded : BuiltUp Expr.IsFolded fun segment =>
    (Settled segment ∧ Fixed segment) ∧ AllItems Expr.IsFolded segment where
  number _ _ := nofun
  name _ _ := nofun
  segment {items out} hfold hitems := by
    have hgroups : AllItems FixedGroup items := fun e he => (hitems e he).fixedGroup
    exact ⟨⟨foldSegment_settled hfold, foldSegment_fixed hfold hgroups⟩,
      foldSegment_kept foldKept_holds hfold hitems⟩
  group h g hheld := by
    cases hheld with
    | self => exact fun segment hsegment => (h segment hsegment).1
    | segment hmore hsegment => exact List.forall_mem_singleton.mpr (h _ hsegment).1
    | item hsegment hitem hheld => exact (h _ hsegment).2 _ hitem g hheld

/-- What is folded from tokens is normal at every depth and is folded to itself, as is every group
that has been folded. -/
theorem resolve_normal_form :
    (∀ (tokens : List Token) (g r : Group), nest tokens = .ok g → g.resolve = .ok r →
      ∀ inner, r.toExpr.Holds inner → inner.IsNormal ∧ inner.resolve = .ok inner) ∧
    ∀ g r : Group, g.resolve = .ok r → r.resolve = .ok r := by
  refine ⟨fun tokens g r hnest hresolve inner hheld => ?_, fun g r h => Group.resolve_resolve h⟩
  obtain ⟨items, hitems, hfirst, hmore⟩ := resolve_inv hresolve
  obtain ⟨hall, hsegments⟩ := (Nesting.nest_nests hnest).builtUp builtUp_isFolded hitems hmore
  have hfolded : r.toExpr.IsFolded := builtUp_isFolded.group
    (List.forall_mem_cons.mpr ⟨builtUp_isFolded.segment hfirst hall, hsegments⟩)
  exact ⟨(hfolded inner hheld).isNormal, (hfolded inner hheld).resolve_eq⟩

/-- In `f(1, x[2])` the second argument is a group that has been folded to a call. -/
theorem resolve_normal_form_argument :
    (Group.single [.expr (.call indexFunction
      [.name "x", .group [.expr (.number 2)] []])]).IsNormal ∧
    Group.resolve (.single [.expr (.call "f" [.group [.expr (.number 1)] [],
      .group [.expr (.call indexFunction [.name "x", .group [.expr (.number 2)] []])] []])]) =
        .ok (.single [.expr (.call "f" [.group [.expr (.number 1)] [],
          .group [.expr (.call indexFunction [.name "x", .group [.expr (.number 2)] []])] []])]) := by
  have hnest : nest [.name "f", .opening .round, .number 1, .comma, .name "x", .opening .square,
      .number 2, .closing .square, .closing .round] =
        .ok (.single [.expr (.name "f"), .expr (.group [.expr (.number 1)]
          [[.expr (.name "x"), .dot, .expr (.name indexFunction),
            .expr (.group [.expr (.number 2)] [])]])]) := rfl
  have hnumber (x : Float) : Folds [.expr (.number x)] (.number x) := by
    unfold Folds
    rw [resolveItems_of_no_group (by simp)]
    rfl
  have hindex := folds_index "x" (hnumber 2) foldsAll_nil
  have hcall := folds_call "f" (hnumber 1) (foldsAll_cons hindex foldsAll_nil)
  have hresolve := (resolve_eq_ok_iff (g := .single _)).mpr ⟨hcall, rfl⟩
  obtain ⟨hnormal, hagain⟩ := resolve_normal_form
  refine ⟨(hnormal _ _ _ hnest hresolve _ ?_).1, hagain _ _ hresolve⟩
  refine .item List.mem_cons_self List.mem_cons_self ?_
  exact .argument (.tail _ (.head _)) (.self _ _)

end PixelCalc
