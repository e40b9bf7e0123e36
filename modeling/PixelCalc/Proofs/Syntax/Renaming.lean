import PixelCalc.Proofs.Syntax.Operands

/-!
# Reading does not look at names

Which name stands where is of no account for the shape of a tree: when all names among the tokens
are exchanged for others, those of the tree are exchanged in the same way, and a syntax error is the
same one. Only the name that an index calls is fixed.

- `Expr.rename`, `Token.rename`: trees and tokens with other names.
- `nestFrom_rename`, `foldCalls_rename`, `foldTier_rename`, `resolveItems_rename`: every stage of
  reading commutes with an exchange of names.
- `treeOf_rename`: so does reading as a whole.
- `Expr.leafNames`: the names that are operands; `leafNames_rename` exchanges them.
-/

namespace PixelCalc

/-! ### Other names -/

mutual

/-- An expression with other names. -/
def Expr.rename (ρ : String → String) : Expr → Expr
  | .number x => .number x
  | .nothing => .nothing
  | .name n => .name (ρ n)
  | .target n => .target (ρ n)
  | .group first more => .group (renameItems ρ first) (renameSegments ρ more)
  | .operation op left right => .operation op (left.rename ρ) (right.rename ρ)
  | .call n arguments => .call (ρ n) (renameAll ρ arguments)

/-- An item with other names. -/
def Item.rename (ρ : String → String) : Item → Item
  | .expr e => .expr (e.rename ρ)
  | .operator op => .operator op
  | .dot => .dot

/-- The items of a segment with other names. -/
def renameItems (ρ : String → String) : List Item → List Item
  | [] => []
  | item :: rest => item.rename ρ :: renameItems ρ rest

/-- Segments with other names. -/
def renameSegments (ρ : String → String) : List (List Item) → List (List Item)
  | [] => []
  | segment :: rest => renameItems ρ segment :: renameSegments ρ rest

/-- Arguments with other names. -/
def renameAll (ρ : String → String) : List Expr → List Expr
  | [] => []
  | e :: rest => e.rename ρ :: renameAll ρ rest

end

/-- A token with another name, if it is one. -/
def Token.rename (ρ : String → String) : Token → Token
  | .name n => .name (ρ n)
  | t => t

/-- A group with other names. -/
def Group.rename (ρ : String → String) (g : Group) : Group :=
  ⟨renameItems ρ g.first, renameSegments ρ g.more⟩

variable {ρ : String → String}

/-- The items of a segment are renamed one by one; the definition repeats the recursion only because
it stands in a mutual block. -/
theorem renameItems_eq_map (items : List Item) : renameItems ρ items = items.map (Item.rename ρ) := by
  induction items with
  | nil => rfl
  | cons item items ih => rw [renameItems, ih, List.map_cons]

/-- Segments are renamed one by one. -/
theorem renameSegments_eq_map (segments : List (List Item)) :
    renameSegments ρ segments = segments.map (renameItems ρ) := by
  induction segments with
  | nil => rfl
  | cons segment segments ih => rw [renameSegments, ih, List.map_cons]

@[simp] theorem renameItems_append (items items' : List Item) :
    renameItems ρ (items ++ items') = renameItems ρ items ++ renameItems ρ items' := by
  simp only [renameItems_eq_map, List.map_append]

@[simp] theorem renameItems_reverse (items : List Item) :
    renameItems ρ items.reverse = (renameItems ρ items).reverse := by
  simp only [renameItems_eq_map, List.map_reverse]

@[simp] theorem renameSegments_append (segments segments' : List (List Item)) :
    renameSegments ρ (segments ++ segments') =
      renameSegments ρ segments ++ renameSegments ρ segments' := by
  simp only [renameSegments_eq_map, List.map_append]

/-! ### Nesting -/

namespace Nesting

/-- A level with other names. -/
def Level.rename (ρ : String → String) (level : Level) : Level :=
  ⟨renameSegments ρ level.ended, renameItems ρ level.current⟩

theorem Level.rename_push (level : Level) (items : List Item) :
    (level.push items).rename ρ = (level.rename ρ).push (renameItems ρ items) := by
  simp [Level.rename, Level.push]

theorem Level.rename_comma (level : Level) :
    level.comma.rename ρ = (level.rename ρ).comma := by
  simp [Level.rename, Level.comma, renameSegments, renameItems]

/-- The group of a renamed level is the renamed group. -/
theorem Level.rename_close (level : Level) :
    level.close.rename ρ = (level.rename ρ).close := by
  obtain ⟨ended, current⟩ := level
  cases ended with
  | nil => rfl
  | cons first more => simp [Level.rename, Level.close, Group.rename, renameSegments]

/-- Round brackets bring no name. Square ones bring the name that an index calls, which is why that
name is fixed. -/
theorem bracketItems_rename (hindex : ρ indexFunction = indexFunction) (b : Bracket) (g : Group) :
    renameItems ρ (bracketItems b g) = bracketItems b (g.rename ρ) := by
  cases b with
  | round => rfl
  | square =>
    show [Item.dot, .expr (.name (ρ indexFunction)), .expr (g.rename ρ).toExpr] = _
    rw [hindex]
    rfl

/-- Nesting commutes with an exchange of names, from any level and with any brackets open around it.
-/
theorem nestFrom_rename (hindex : ρ indexFunction = indexFunction) (level : Level)
    (outer : List (Bracket × Level)) (tokens : List Token) :
    nestFrom (level.rename ρ) (outer.map fun around => (around.1, around.2.rename ρ))
        (tokens.map (Token.rename ρ)) =
      (nestFrom level outer tokens).map (Group.rename ρ) := by
  -- Induction along the tokens. Only a closing bracket does more than a push: it closes the level
  -- and adds what its brackets stand for.
  fun_induction nestFrom level outer tokens with
  | case1 level => exact congrArg Except.ok (Level.rename_close level).symm
  | case2 => rfl
  | case3 level outer b rest ih => exact ih
  | case4 => rfl
  | case5 level rest opened around outer ih =>
    rw [← ih, Level.rename_push, bracketItems_rename hindex, Level.rename_close]
    exact if_pos rfl
  | case6 level b rest opened around outer hopened => exact if_neg hopened
  | case7 level outer rest ih =>
    rw [← ih, Level.rename_comma]
    rfl
  | case8 level outer rest ih | case9 level outer op rest ih | case10 level outer x rest ih
  | case11 level outer n rest ih =>
    rw [← ih, Level.rename_push]
    rfl

end Nesting

/-! ### Folding -/

namespace Folding

/-- The arguments of a call are its segments, each as a group, so they are renamed segment by
segment. -/
theorem arguments_rename (first : List Item) (more : List (List Item)) :
    arguments (renameItems ρ first) (renameSegments ρ more) = renameAll ρ (arguments first more) := by
  have hsegments (segments : List (List Item)) :
      (renameSegments ρ segments).map (fun segment => Expr.group segment []) =
        renameAll ρ (segments.map fun segment => .group segment []) := by
    induction segments with
    | nil => rfl
    | cons segment segments ih =>
      rw [renameSegments, List.map_cons, ih]
      rfl
  cases first with
  | nil =>
    cases more with
    | nil => rfl
    | cons segment more => exact hsegments ([] :: segment :: more)
  | cons item first => exact hsegments ((item :: first) :: more)

/-- Whether a group is the arguments of a call depends on there being a name before it, not on the
name. -/
theorem placeGroup_rename (first : List Item) (more : List (List Item)) (passed : List Item) :
    placeGroup (renameItems ρ first) (renameSegments ρ more) (renameItems ρ passed) =
      (placeGroup first more passed).map (renameItems ρ) := by
  -- the cases of the definition: a method call, no receiver, nothing before the dot, a plain call,
  -- a value
  fun_cases placeGroup first more passed with
  | case1 n receiver passed =>
    show Except.ok (Item.expr (.call (ρ n) (receiver.rename ρ :: arguments _ _)) :: _) = _
    rw [arguments_rename]
    rfl
  | case2 n item passed hitem =>
    cases item with
    | expr e => exact (hitem e rfl).elim
    | _ => rfl
  | case3 => rfl
  | case4 n passed _ hdot hend =>
    have hcall : placeGroup (renameItems ρ first) (renameSegments ρ more)
        (.expr (.name (ρ n)) :: renameItems ρ passed) = .ok (.expr (.call (ρ n)
          (arguments (renameItems ρ first) (renameSegments ρ more))) :: renameItems ρ passed) := by
      cases passed with
      | nil => rfl
      | cons item passed =>
        cases item with
        | dot =>
          cases passed with
          | nil => exact (hend rfl).elim
          | cons item passed => exact (hdot item passed rfl).elim
        | _ => rfl
    rw [arguments_rename] at hcall
    exact hcall
  | case5 passed _ _ _ hname =>
    cases passed with
    | nil => rfl
    | cons item passed =>
      cases item with
      | expr e =>
        cases e with
        | name n => exact (hname n passed rfl).elim
        | _ => rfl
      | _ => rfl

/-- The pass that forms calls commutes with an exchange of names. -/
theorem foldCalls_rename (passed items : List Item) :
    foldCalls (renameItems ρ passed) (renameItems ρ items) =
      (foldCalls passed items).map (renameItems ρ) := by
  fun_induction foldCalls passed items with
  | case1 passed => exact congrArg Except.ok (renameItems_reverse passed).symm
  | case2 passed first more rest passed' hplace ih =>
    simp only [renameItems, Item.rename, Expr.rename, foldCalls, placeGroup_rename, hplace,
      Except.map, ih]
  | case3 passed first more rest e hplace =>
    simp only [renameItems, Item.rename, Expr.rename, foldCalls, placeGroup_rename, hplace,
      Except.map]
  | case4 passed item rest hitem ih =>
    rw [← ih]
    cases item with
    | expr e =>
      cases e with
      | group first more => exact (hitem first more rfl).elim
      | _ => rfl
    | _ => rfl

/-- An assignment to a name has the new name as its target. -/
theorem operation_rename (op : Operator) (left right : Expr) :
    (operation op left right).rename ρ = operation op (left.rename ρ) (right.rename ρ) := by
  cases op with
  | assign => cases left <;> rfl
  | _ => rfl

/-- Operands that are supplied have no names. -/
theorem implicitLeft_rename {op : Operator} {left : Expr} (h : implicitLeft op = some left) :
    left.rename ρ = left := by
  cases op <;> cases h <;> rfl

theorem implicitRight_rename {op : Operator} {right : Expr} (h : implicitRight op = some right) :
    right.rename ρ = right := by
  cases op <;> cases h
  rfl

/-- An operand and the items before it with other names. -/
def renameTaken (ρ : String → String) (taken : Expr × List Item) : Expr × List Item :=
  (taken.1.rename ρ, renameItems ρ taken.2)

/-- Whether there is an operand on the left does not depend on names, nor does the refusal of what
is none: operators and points have no names. -/
theorem leftOperand_rename (tier : Tier) (op : Operator) (passed : List Item) :
    leftOperand tier op (renameItems ρ passed) =
      (leftOperand tier op passed).map (Option.map (renameTaken ρ)) := by
  cases passed with
  | nil =>
    cases hleft : implicitLeft op with
    | none => simp only [renameItems, leftOperand, hleft, Except.map]
    | some left =>
      simp only [renameItems, leftOperand, hleft, Except.map, Option.map, renameTaken,
        implicitLeft_rename hleft]
  | cons item passed =>
    cases item with
    | expr left =>
      show Except.ok (if tier.prefixOnly then _ else _) = Except.ok (Option.map _ _)
      split <;> rfl
    | _ =>
      cases hleft : implicitLeft op with
      | none => simp only [renameItems, Item.rename, leftOperand, hleft, Except.map]
      | some left =>
        simp only [renameItems, Item.rename, leftOperand, hleft, Except.map, Option.map,
          renameTaken, implicitLeft_rename hleft]

/-- A pass over a tier commutes with an exchange of names. -/
theorem foldTier_rename (tier : Tier) (passed items : List Item) :
    foldTier tier (renameItems ρ passed) (renameItems ρ items) =
      (foldTier tier passed items).map (renameItems ρ) := by
  -- Induction along the pass. In each case the renamed items make the same choice, since only
  -- operators and the presence of operands decide; operations and filled-in bounds have been
  -- treated above.
  fun_induction foldTier tier passed items with
  | case1 passed => exact congrArg Except.ok (renameItems_reverse passed).symm
  | case2 passed op rest hop e hleft =>
    rw [renameItems, Item.rename, foldTier, if_pos hop, leftOperand_rename, hleft]
    rfl
  | case3 passed op rest hop hleft ih =>
    rw [renameItems, Item.rename, foldTier, if_pos hop, leftOperand_rename, hleft]
    exact ih
  | case4 passed op hop left passed' hleft right rest ih =>
    rw [renameItems, Item.rename, operation_rename] at ih
    rw [renameItems, Item.rename, foldTier, if_pos hop, leftOperand_rename, hleft]
    exact ih
  | case5 passed op hop left passed' hleft right hright =>
    rw [renameItems, renameItems, Item.rename, foldTier, if_pos hop, leftOperand_rename, hleft]
    simp only [Except.map, Option.map, renameTaken, hright]
    rw [renameItems_reverse, renameItems, Item.rename, operation_rename, implicitRight_rename hright]
  | case6 passed op hop left passed' hleft hright =>
    rw [renameItems, renameItems, Item.rename, foldTier, if_pos hop, leftOperand_rename, hleft]
    simp only [Except.map, Option.map, renameTaken, hright]
  | case7 passed op hop left passed' hleft item rest hitem right hright ih =>
    rw [renameItems, Item.rename, operation_rename, implicitRight_rename hright] at ih
    rw [renameItems, Item.rename, foldTier, if_pos hop, leftOperand_rename, hleft]
    cases item with
    | expr e => exact (hitem e rfl).elim
    | _ =>
      simp only [Except.map, Option.map, renameTaken, renameItems, Item.rename, hright]
      exact ih
  | case8 passed op hop left passed' hleft item rest hitem hright =>
    rw [renameItems, Item.rename, foldTier, if_pos hop, leftOperand_rename, hleft]
    cases item with
    | expr e => exact (hitem e rfl).elim
    | _ => simp only [Except.map, Option.map, renameTaken, renameItems, Item.rename, hright]
  | case9 passed op rest hop ih =>
    rw [renameItems, Item.rename, foldTier, if_neg hop]
    exact ih
  | case10 passed item rest hitem ih =>
    rw [← ih]
    cases item with
    | operator op => exact (hitem op rfl).elim
    | _ => rfl

/-- The passes one after another. -/
theorem foldTiers_rename (tiers : List Tier) (items : List Item) :
    foldTiers tiers (renameItems ρ items) = (foldTiers tiers items).map (renameItems ρ) := by
  induction tiers generalizing items with
  | nil => rfl
  | cons tier more ih =>
    have htier := foldTier_rename (ρ := ρ) tier [] items
    rw [renameItems] at htier
    rw [foldTiers, foldTiers, htier]
    cases foldTier tier [] items with
    | error e => rfl
    | ok items => exact ih items

/-- All passes over one segment. -/
theorem foldSegment_rename (items : List Item) :
    foldSegment (renameItems ρ items) = (foldSegment items).map (renameItems ρ) := by
  have hcalls := foldCalls_rename (ρ := ρ) [] items
  rw [renameItems] at hcalls
  rw [foldSegment, foldSegment, hcalls]
  cases foldCalls [] items with
  | error e => rfl
  | ok items => exact foldTiers_rename tiers items

/-- An item that is no group stays as it is, and is none with another name. -/
theorem resolveItems_rename_cons {item : Item} {rest : List Item}
    (hitem : ∀ first more, item ≠ .expr (.group first more))
    (h : resolveItems (renameItems ρ rest) = (resolveItems rest).map (renameItems ρ)) :
    resolveItems (renameItems ρ (item :: rest)) =
      (resolveItems (item :: rest)).map (renameItems ρ) := by
  have hrenamed : ∀ first more, item.rename ρ ≠ .expr (.group first more) := by
    cases item with
    | expr e =>
      cases e with
      | group first more => exact absurd rfl (hitem first more)
      | _ => simp [Item.rename, Expr.rename]
    | _ => simp [Item.rename]
  rw [renameItems, resolveItems, resolveItems, h]
  · exact bind_map_comm fun rest => rfl
  · exact hitem
  · exact hrenamed

mutual

/-- Folding at every depth commutes with an exchange of names; by induction over the tree, together
with the segments. -/
theorem resolveItems_rename : ∀ items : List Item,
    resolveItems (renameItems ρ items) = (resolveItems items).map (renameItems ρ)
  | [] => by
    rw [renameItems, resolveItems]
    rfl
  | .expr (.group first more) :: rest => by
    rw [renameItems, Item.rename, Expr.rename, resolveItems, resolveItems,
      resolveItems_rename first]
    refine bind_map_comm fun items => ?_
    rw [foldSegment_rename]
    refine bind_map_comm fun first => ?_
    rw [resolveSegments_rename more]
    refine bind_map_comm fun more => ?_
    rw [resolveItems_rename rest]
    exact bind_map_comm fun rest => rfl
  | .expr (.number _) :: rest | .expr .nothing :: rest | .expr (.name _) :: rest
  | .expr (.target _) :: rest | .expr (.operation _ _ _) :: rest | .expr (.call _ _) :: rest
  | .operator _ :: rest | .dot :: rest =>
    resolveItems_rename_cons (by simp) (resolveItems_rename rest)

/-- The same for the segments after the first one. -/
theorem resolveSegments_rename : ∀ segments : List (List Item),
    resolveSegments (renameSegments ρ segments) = (resolveSegments segments).map (renameSegments ρ)
  | [] => by
    rw [renameSegments, resolveSegments]
    rfl
  | segment :: rest => by
    rw [renameSegments, resolveSegments, resolveSegments, resolveItems_rename segment]
    refine bind_map_comm fun items => ?_
    rw [foldSegment_rename]
    refine bind_map_comm fun segment => ?_
    rw [resolveSegments_rename rest]
    exact bind_map_comm fun rest => rfl

end

end Folding

/-! ### Reading as a whole -/

/-- Folding a whole group commutes with an exchange of names. -/
theorem Group.resolve_rename (g : Group) :
    (g.rename ρ).resolve = g.resolve.map (Group.rename ρ) := by
  unfold Group.resolve
  show (Folding.resolveItems (renameItems ρ g.first) >>= _) = _
  rw [Folding.resolveItems_rename]
  refine bind_map_comm fun items => ?_
  rw [Folding.foldSegment_rename]
  refine bind_map_comm fun first => ?_
  show (Folding.resolveSegments (renameSegments ρ g.more) >>= _) = _
  rw [Folding.resolveSegments_rename]
  exact bind_map_comm fun more => rfl

/-- Whether a group stands for one expression depends on the number of its items. -/
theorem Group.expression_rename (g : Group) :
    (g.rename ρ).expression = g.expression.map (Expr.rename ρ) := by
  obtain ⟨first, more⟩ := g
  rcases first with _ | ⟨_ | _ | _, _ | _⟩ <;> cases more <;> rfl

/-- The tree of tokens. -/
def treeOf (tokens : List Token) : Except SyntaxError Expr := do
  let group ← nest tokens
  let resolved ← group.resolve
  resolved.expression

/-- Reading a source is scanning and then making a tree of the tokens, and names are exchanged in
between. -/
theorem parse_eq (source : String) : parse source = tokenize source >>= treeOf :=
  rfl

/-- Tokens with other names have the tree with these names, or the same syntax error. -/
theorem treeOf_rename (hindex : ρ indexFunction = indexFunction) (tokens : List Token) :
    treeOf (tokens.map (Token.rename ρ)) = (treeOf tokens).map (Expr.rename ρ) := by
  have hnest : nest (tokens.map (Token.rename ρ)) = (nest tokens).map (Group.rename ρ) :=
    Nesting.nestFrom_rename hindex .start [] tokens
  unfold treeOf
  rw [hnest]
  refine bind_map_comm fun group => ?_
  rw [Group.resolve_rename]
  exact bind_map_comm fun resolved => Group.expression_rename resolved

/-! ### Names that are operands -/

/-- A leaf with another name, if it is one. -/
def Leaf.rename (ρ : String → String) : Leaf → Leaf
  | .name n => .name (ρ n)
  | leaf => leaf

/-- The name of a leaf that is one. -/
def Leaf.name? : Leaf → Option String
  | .name n => some n
  | _ => none

/-- The names that are operands, from left to right. -/
def Expr.leafNames (e : Expr) : List String :=
  e.leaves.filterMap Leaf.name?

/-- Whether a sign has a number on its left does not depend on names. -/
theorem asLeft_rename (op : Operator) (e : Expr) (leaves : List Leaf) :
    asLeft op (e.rename ρ) (leaves.map (Leaf.rename ρ)) =
      (asLeft op e leaves).map (Leaf.rename ρ) := by
  cases e with
  | number x => cases op <;> rfl
  | _ => cases op <;> rfl

mutual

/-- The operands of a tree are renamed where they stand; by induction over the tree. -/
theorem Expr.leaves_rename : ∀ e : Expr, (e.rename ρ).leaves = e.leaves.map (Leaf.rename ρ)
  | .number _ => rfl
  | .nothing => rfl
  | .name _ => rfl
  | .target _ => rfl
  | .group first more => by
    rw [Expr.rename, Expr.leaves, Expr.leaves, itemLeaves_rename first, segmentLeaves_rename more,
      List.map_append]
  | .operation op left right => by
    rw [Expr.rename, Expr.leaves, Expr.leaves, Expr.leaves_rename left, Expr.leaves_rename right,
      asLeft_rename, List.map_append]
  | .call n arguments => by
    rw [Expr.rename, Expr.leaves, Expr.leaves, exprLeaves_rename arguments]

theorem itemLeaves_rename : ∀ items : List Item,
    itemLeaves (renameItems ρ items) = (itemLeaves items).map (Leaf.rename ρ)
  | [] => rfl
  | .expr e :: rest => by
    rw [renameItems, Item.rename, itemLeaves, itemLeaves, Expr.leaves_rename e,
      itemLeaves_rename rest, List.map_append]
  | .operator _ :: rest | .dot :: rest => itemLeaves_rename rest

theorem segmentLeaves_rename : ∀ segments : List (List Item),
    segmentLeaves (renameSegments ρ segments) = (segmentLeaves segments).map (Leaf.rename ρ)
  | [] => rfl
  | segment :: rest => by
    rw [renameSegments, segmentLeaves, segmentLeaves, itemLeaves_rename segment,
      segmentLeaves_rename rest, List.map_append]

theorem exprLeaves_rename : ∀ es : List Expr,
    exprLeaves (renameAll ρ es) = (exprLeaves es).map (Leaf.rename ρ)
  | [] => rfl
  | e :: rest => by
    rw [renameAll, exprLeaves, exprLeaves, Expr.leaves_rename e, exprLeaves_rename rest,
      List.map_append]

end

/-- The names among the operands are the exchanged ones, in the same order. -/
theorem leafNames_rename (e : Expr) : (e.rename ρ).leafNames = e.leafNames.map ρ := by
  rw [Expr.leafNames, Expr.leaves_rename, List.filterMap_map, Expr.leafNames, List.map_filterMap]
  congr 1
  funext leaf
  cases leaf <;> rfl

end PixelCalc
