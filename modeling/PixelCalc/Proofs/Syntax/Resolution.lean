import PixelCalc.Proofs.Folding.Pass
import PixelCalc.Proofs.Syntax.Assembly
import PixelCalc.Proofs.Syntax.Derivation

/-!
# From the tokens of a source to its tree

Between the tokens and the tree stand three stages: the tokens are nested into segments, the groups
in a segment are folded before the segment is, and folding makes calls before operations. What all
three keep holds of the tree.

- `resolveItems_cons_inv`, `resolveItems_group_inv`, `resolveSegments_cons_inv`, `resolve_inv`: what
  a segment and its groups are folded to.
- `parse_inv`: the stages of a source that has a tree.
- `FoldKept`: a property of expressions that folding a segment keeps; `Pass.kept` and
  `foldCalls_kept` are the steps.
- `BuiltUp`: properties of expressions and of segments that reading builds up from the inside;
  `Nests.builtUp` says that all that is folded from tokens has them.
- `Kept`: a property of expressions that every step of reading keeps; `parse_kept` says that the
  tree of a source has it.
-/

namespace PixelCalc
namespace Folding

variable {first items rest : List Item} {more segments : List (List Item)}

/-! ### Groups and segments -/

theorem resolveItems_nil_inv (h : resolveItems [] = .ok items) : items = [] := by
  rw [resolveItems] at h
  cases h
  rfl

/-- An item that is no group stays as it is. -/
theorem resolveItems_cons_inv {item : Item} (hitem : ∀ first more, item ≠ .expr (.group first more))
    (h : resolveItems (item :: rest) = .ok items) :
    ∃ rest', resolveItems rest = .ok rest' ∧ items = item :: rest' := by
  rw [resolveItems] at h
  · obtain ⟨rest', hrest, h⟩ := bind_eq_ok h
    cases h
    exact ⟨rest', hrest, rfl⟩
  · exact hitem

/-- A group has its segments folded where it stands. -/
theorem resolveItems_group_inv (h : resolveItems (.expr (.group first more) :: rest) = .ok items) :
    ∃ inner folded segments rest', resolveItems first = .ok inner ∧
      foldSegment inner = .ok folded ∧ resolveSegments more = .ok segments ∧
      resolveItems rest = .ok rest' ∧ items = .expr (.group folded segments) :: rest' := by
  rw [resolveItems] at h
  obtain ⟨inner, hinner, h⟩ := bind_eq_ok h
  obtain ⟨folded, hfolded, h⟩ := bind_eq_ok h
  obtain ⟨segments, hsegments, h⟩ := bind_eq_ok h
  obtain ⟨rest', hrest, h⟩ := bind_eq_ok h
  cases h
  exact ⟨inner, folded, segments, rest', hinner, hfolded, hsegments, hrest, rfl⟩

theorem resolveSegments_nil_inv (h : resolveSegments [] = .ok segments) : segments = [] := by
  rw [resolveSegments] at h
  cases h
  rfl

/-- The first segment is folded after the groups in it, and independently of the others. -/
theorem resolveSegments_cons_inv (h : resolveSegments (first :: more) = .ok segments) :
    ∃ inner folded rest, resolveItems first = .ok inner ∧ foldSegment inner = .ok folded ∧
      resolveSegments more = .ok rest ∧ segments = folded :: rest := by
  rw [resolveSegments] at h
  obtain ⟨inner, hinner, h⟩ := bind_eq_ok h
  obtain ⟨folded, hfolded, h⟩ := bind_eq_ok h
  obtain ⟨rest, hrest, h⟩ := bind_eq_ok h
  cases h
  exact ⟨inner, folded, rest, hinner, hfolded, hrest, rfl⟩

/-- A group is folded segment by segment. -/
theorem resolve_inv {g r : Group} (h : g.resolve = .ok r) :
    ∃ items, resolveItems g.first = .ok items ∧ foldSegment items = .ok r.first ∧
      resolveSegments g.more = .ok r.more := by
  obtain ⟨items, hitems, h⟩ := bind_eq_ok h
  obtain ⟨first, hfirst, h⟩ := bind_eq_ok h
  obtain ⟨more, hmore, h⟩ := bind_eq_ok h
  cases h
  exact ⟨items, hitems, hfirst, hmore⟩

end Folding

open Folding in
/-- A source with a tree has tokens that are nested into one segment, and this is folded from the
inside out to the tree. -/
theorem parse_inv {source : String} {e : Expr} (h : parse source = .ok e) :
    ∃ tokens first items, tokenize source = .ok tokens ∧ Nesting.Nests first [] tokens ∧
      resolveItems first = .ok items ∧ foldSegment items = .ok [.expr e] := by
  obtain ⟨first, ⟨tokens, hscan, hnest⟩, hfolds⟩ := parse_iff.mp h
  obtain ⟨items, hitems, hfold⟩ := bind_eq_ok hfolds
  exact ⟨tokens, first, items, tokenize_eq_ok_iff.mpr hscan, Nesting.nest_nests hnest, hitems, hfold⟩

/-! ### Properties that reading keeps -/

/-- All expressions among the items have the property. -/
def AllItems (P : Expr → Prop) (items : List Item) : Prop :=
  ∀ e, .expr e ∈ items → P e

namespace AllItems

variable {P : Expr → Prop} {item : Item} {items : List Item} {e : Expr}

theorem nil : AllItems P [] :=
  fun _ h => absurd h List.not_mem_nil

theorem cons_iff :
    AllItems P (item :: items) ↔ (∀ e, item = .expr e → P e) ∧ AllItems P items := by
  constructor
  · intro h
    exact ⟨fun e he => h e (he ▸ List.mem_cons_self), fun e he => h e (.tail _ he)⟩
  · rintro ⟨hitem, hitems⟩ e he
    rcases List.mem_cons.mp he with he | he
    · exact hitem e he.symm
    · exact hitems e he

/-- The property of all expressions among the items, with the first of them apart. -/
theorem cons_expr_iff : AllItems P (.expr e :: items) ↔ P e ∧ AllItems P items := by
  rw [cons_iff]
  exact and_congr_left' ⟨fun h => h e rfl, fun h e' he => Item.expr.inj he ▸ h⟩

theorem reverse (h : AllItems P items) : AllItems P items.reverse :=
  fun e he => h e (List.mem_reverse.mp he)

end AllItems

/-- A property of expressions that every step of folding keeps. -/
structure Kept (P : Expr → Prop) : Prop where
  number (x : Float) : P (.number x)
  name (n : String) : P (.name n)
  group {first : List Item} {more : List (List Item)}
    (h : ∀ segment ∈ first :: more, AllItems P segment) : P (.group first more)
  segments {first : List Item} {more : List (List Item)} (h : P (.group first more)) :
    ∀ segment ∈ first :: more, AllItems P segment
  /-- An operand is one of the expressions that are folded, or supplied by the operator. -/
  operation {op : Operator} {left right : Expr}
    (hl : P left ∨ Folding.implicitLeft op = some left)
    (hr : P right ∨ Folding.implicitRight op = some right) : P (Folding.operation op left right)
  call {n : String} {arguments : List Expr} (h : ∀ a ∈ arguments, P a) : P (.call n arguments)

/-- A property of expressions that the folding of a segment keeps. -/
structure FoldKept (P : Expr → Prop) : Prop where
  /-- An operand is one of the expressions that are folded, or supplied by the operator. -/
  operation {op : Operator} {left right : Expr}
    (hl : P left ∨ Folding.implicitLeft op = some left)
    (hr : P right ∨ Folding.implicitRight op = some right) : P (Folding.operation op left right)
  call {n : String} {arguments : List Expr} (h : ∀ a ∈ arguments, P a) : P (.call n arguments)
  /-- In the brackets of a call a segment is a group of its own. -/
  segment {first : List Item} {more : List (List Item)} (h : P (.group first more)) :
    ∀ segment ∈ first :: more, P (.group segment [])

/-- A property of expressions and one of segments that reading builds up from the inside: a segment
has it that is folded from such expressions, and a group has it whose segments have it. -/
structure BuiltUp (P : Expr → Prop) (S : List Item → Prop) : Prop where
  number (x : Float) : P (.number x)
  name (n : String) : P (.name n)
  segment {items out : List Item} (hfold : Folding.foldSegment items = .ok out)
    (hitems : AllItems P items) : S out
  group {first : List Item} {more : List (List Item)} (h : ∀ segment ∈ first :: more, S segment) :
    P (.group first more)

/-- What is kept by building trees is kept by folding, since folding only builds. -/
theorem Kept.foldKept {P : Expr → Prop} (hP : Kept P) : FoldKept P where
  operation := hP.operation
  call := hP.call
  segment h segment hsegment :=
    hP.group (List.forall_mem_singleton.mpr (hP.segments h segment hsegment))

namespace Folding

variable {P : Expr → Prop} {tier : Tier} {op : Operator} {left right : Expr}
  {passed passed' rest rest' items out first : List Item} {more segments : List (List Item)}

/-- A left operand has the property, or is a bound that was filled in. -/
theorem TakesLeft.kept (h : TakesLeft tier op passed left passed') (hpassed : AllItems P passed) :
    (P left ∨ implicitLeft op = some left) ∧ AllItems P passed' := by
  cases h with
  | operand =>
    obtain ⟨hleft, hpassed'⟩ := AllItems.cons_expr_iff.mp hpassed
    exact ⟨.inl hleft, hpassed'⟩
  | implicit _ hleft => exact ⟨.inr hleft, hpassed⟩

/-- So does a right operand. -/
theorem TakesRight.kept (h : TakesRight op rest right rest') (hrest : AllItems P rest) :
    (P right ∨ implicitRight op = some right) ∧ AllItems P rest' := by
  cases h with
  | operand =>
    obtain ⟨hright, hrest'⟩ := AllItems.cons_expr_iff.mp hrest
    exact ⟨.inl hright, hrest'⟩
  | implicit _ hright => exact ⟨.inr hright, hrest⟩

/-- A pass makes expressions with the property of others that have it, along the pass. -/
theorem Pass.kept (hP : FoldKept P) (h : Pass tier passed items out) (hpassed : AllItems P passed)
    (hitems : AllItems P items) : AllItems P out := by
  induction h with
  | done => exact hpassed.reverse
  | skip _ _ ih =>
    obtain ⟨hitem, hrest⟩ := AllItems.cons_iff.mp hitems
    exact ih (AllItems.cons_iff.mpr ⟨hitem, hpassed⟩) hrest
  | fold _ hleft hright _ ih =>
    obtain ⟨hl, hpassed'⟩ := hleft.kept hpassed
    obtain ⟨hr, hrest'⟩ := hright.kept (AllItems.cons_iff.mp hitems).2
    exact ih (AllItems.cons_expr_iff.mpr ⟨hP.operation hl hr, hpassed'⟩) hrest'

/-- So do all tiers. -/
theorem foldTiers_kept (hP : FoldKept P) {tiers : List Tier} (h : foldTiers tiers items = .ok out)
    (hitems : AllItems P items) : AllItems P out := by
  induction tiers generalizing items with
  | nil =>
    cases h
    exact hitems
  | cons tier more ih =>
    obtain ⟨items', hpass, h⟩ := foldTiers_cons_iff.mp h
    exact ih h (hpass.kept hP .nil hitems)

/-- The arguments of a call are the segments of its brackets. -/
theorem kept_arguments (hP : FoldKept P) (h : P (.group first more)) :
    ∀ a ∈ arguments first more, P a := by
  intro a ha
  unfold arguments at ha
  split at ha
  · cases ha
  · obtain ⟨segment, hsegment, rfl⟩ := List.mem_map.mp ha
    exact hP.segment h segment hsegment

/-- A group with the property is placed as it is or becomes the arguments of a call. -/
theorem placeGroup_kept (hP : FoldKept P) (h : placeGroup first more passed = .ok passed')
    (hgroup : P (.group first more)) (hpassed : AllItems P passed) : AllItems P passed' := by
  have harguments := kept_arguments hP hgroup
  unfold placeGroup at h
  split at h
  · cases h
    obtain ⟨-, hdot⟩ := AllItems.cons_iff.mp hpassed
    obtain ⟨-, hreceiver⟩ := AllItems.cons_iff.mp hdot
    obtain ⟨hreceiver, hrest⟩ := AllItems.cons_expr_iff.mp hreceiver
    refine AllItems.cons_expr_iff.mpr ⟨hP.call ?_, hrest⟩
    exact List.forall_mem_cons.mpr ⟨hreceiver, harguments⟩
  · cases h
  · cases h
  · cases h
    obtain ⟨-, hrest⟩ := AllItems.cons_expr_iff.mp hpassed
    exact AllItems.cons_expr_iff.mpr ⟨hP.call harguments, hrest⟩
  · cases h
    exact AllItems.cons_expr_iff.mpr ⟨hgroup, hpassed⟩

/-- The pass that forms calls keeps the property. -/
theorem foldCalls_kept (hP : FoldKept P) (h : foldCalls passed items = .ok out)
    (hpassed : AllItems P passed) (hitems : AllItems P items) : AllItems P out := by
  fun_induction foldCalls passed items with
  | case1 =>
    cases h
    exact hpassed.reverse
  | case2 passed first more rest passed' hplace ih =>
    obtain ⟨hgroup, hrest⟩ := AllItems.cons_expr_iff.mp hitems
    exact ih h (placeGroup_kept hP hplace hgroup hpassed) hrest
  | case3 => cases h
  | case4 passed item rest _ ih =>
    obtain ⟨hitem, hrest⟩ := AllItems.cons_iff.mp hitems
    exact ih h (AllItems.cons_iff.mpr ⟨hitem, hpassed⟩) hrest

/-- All passes over a segment keep the property. -/
theorem foldSegment_kept (hP : FoldKept P) (h : foldSegment items = .ok out)
    (hitems : AllItems P items) : AllItems P out := by
  unfold foldSegment at h
  split at h
  · rename_i hcalls
    exact foldTiers_kept hP h (foldCalls_kept hP hcalls .nil hitems)
  · cases h

end Folding

open Folding

/-- What every way of building keeps holds of all trees that are built up. -/
theorem Kept.builtUp {P : Expr → Prop} (hP : Kept P) : BuiltUp P (AllItems P) where
  number := hP.number
  name := hP.name
  segment := foldSegment_kept hP.foldKept
  group := hP.group

/-- What the groups of nested tokens are folded to has the property, and so have the segments behind
the first one when they are folded. -/
theorem Nesting.Nests.builtUp {P : Expr → Prop} {S : List Item → Prop} (hP : BuiltUp P S)
    {first items : List Item} {more segments : List (List Item)} {tokens : List Token}
    (h : Nests first more tokens) (hitems : resolveItems first = .ok items)
    (hsegments : resolveSegments more = .ok segments) :
    AllItems P items ∧ ∀ segment ∈ segments, S segment := by
  induction h generalizing items segments with
  | nil =>
    cases resolveItems_nil_inv hitems
    cases resolveSegments_nil_inv hsegments
    exact ⟨.nil, fun _ hmem => absurd hmem List.not_mem_nil⟩
  | comma _ ih =>
    cases resolveItems_nil_inv hitems
    obtain ⟨inner, folded, rest, hinner, hfold, hrest, rfl⟩ := resolveSegments_cons_inv hsegments
    obtain ⟨hinner, hrest⟩ := ih hinner hrest
    exact ⟨.nil, List.forall_mem_cons.mpr ⟨hP.segment hfold hinner, hrest⟩⟩
  | dot _ ih =>
    obtain ⟨rest, hrest, rfl⟩ := resolveItems_cons_inv (by simp) hitems
    obtain ⟨hrest, hmore⟩ := ih hrest hsegments
    exact ⟨AllItems.cons_iff.mpr ⟨by simp, hrest⟩, hmore⟩
  | operator op _ ih =>
    obtain ⟨rest, hrest, rfl⟩ := resolveItems_cons_inv (by simp) hitems
    obtain ⟨hrest, hmore⟩ := ih hrest hsegments
    exact ⟨AllItems.cons_iff.mpr ⟨by simp, hrest⟩, hmore⟩
  | number x _ ih =>
    obtain ⟨rest, hrest, rfl⟩ := resolveItems_cons_inv (by simp) hitems
    obtain ⟨hrest, hmore⟩ := ih hrest hsegments
    exact ⟨AllItems.cons_expr_iff.mpr ⟨hP.number x, hrest⟩, hmore⟩
  | name n _ ih =>
    obtain ⟨rest, hrest, rfl⟩ := resolveItems_cons_inv (by simp) hitems
    obtain ⟨hrest, hmore⟩ := ih hrest hsegments
    exact ⟨AllItems.cons_expr_iff.mpr ⟨hP.name n, hrest⟩, hmore⟩
  | brackets b _ _ ihinner ih =>
    cases b with
    | round =>
      obtain ⟨inner, folded, _, rest, hinner, hfold, hmore, hrest, rfl⟩ :=
        resolveItems_group_inv hitems
      obtain ⟨hinner, hmore⟩ := ihinner hinner hmore
      obtain ⟨hrest, hsegments⟩ := ih hrest hsegments
      have hgroup := hP.group (List.forall_mem_cons.mpr ⟨hP.segment hfold hinner, hmore⟩)
      exact ⟨AllItems.cons_expr_iff.mpr ⟨hgroup, hrest⟩, hsegments⟩
    | square =>
      obtain ⟨_, hdot, rfl⟩ := resolveItems_cons_inv (by simp) hitems
      obtain ⟨_, hname, rfl⟩ := resolveItems_cons_inv (by simp) hdot
      obtain ⟨inner, folded, _, rest, hinner, hfold, hmore, hrest, rfl⟩ :=
        resolveItems_group_inv hname
      obtain ⟨hinner, hmore⟩ := ihinner hinner hmore
      obtain ⟨hrest, hsegments⟩ := ih hrest hsegments
      have hgroup := hP.group (List.forall_mem_cons.mpr ⟨hP.segment hfold hinner, hmore⟩)
      refine ⟨AllItems.cons_iff.mpr ⟨by simp, ?_⟩, hsegments⟩
      refine AllItems.cons_expr_iff.mpr ⟨hP.name indexFunction, ?_⟩
      exact AllItems.cons_expr_iff.mpr ⟨hgroup, hrest⟩

/-- The tree of a source has every property that folding keeps. -/
theorem parse_kept {P : Expr → Prop} (hP : Kept P) {source : String} {e : Expr}
    (h : parse source = .ok e) : P e := by
  obtain ⟨tokens, first, items, -, hnests, hitems, hfold⟩ := parse_inv h
  have hsegments : resolveSegments [] = .ok [] := by rw [resolveSegments]
  have hall := foldSegment_kept hP.foldKept hfold (hnests.builtUp hP.builtUp hitems hsegments).1
  exact (AllItems.cons_expr_iff.mp hall).1

end PixelCalc
