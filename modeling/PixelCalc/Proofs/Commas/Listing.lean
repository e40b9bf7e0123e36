import PixelCalc.Proofs.Commas.Reading
import PixelCalc.Proofs.Syntax.Alphabet
import PixelCalc.Proofs.Syntax.Resolution

/-!
# Segments as one list

The segments of a group, written as one list with the commas between them, are read in the same way
as the segments themselves. So a comma never comes anywhere else.

- `Expr.listed`, `Item.listed`, `Group.listed`: trees with their commas as items.
- `Nesting.group_listed`: grouping words is nesting the tokens up to the end of the input.
- `Folding.foldCalls_listed`, `Folding.foldTier_listed`: a pass over a segment.
- `Folding.foldItems_separated`: no pass changes segments and commas.
- `Group.resolve_listed`, `parse_listed`: all passes, and reading as a whole.
-/

namespace PixelCalc

/-! ### Trees with their commas as items -/

mutual

/-- An expression with the commas in its groups as items. -/
def Expr.listed : Expr → Listed.Expr
  | .number x => .number x
  | .nothing => .nothing
  | .name n => .name n
  | .target n => .target n
  | .group first [] => .group (listItems first) false
  | .group first (second :: more) =>
    .group (.expr (.group (listItems first) false) :: listSegments (second :: more)) true
  | .operation op left right => .operation op left.listed right.listed
  | .call n arguments => .call n (listAll arguments)

/-- An item with the commas in its groups as items. -/
def Item.listed : Item → Listed.Item
  | .expr e => .expr e.listed
  | .operator op => .operator op
  | .dot => .dot

/-- The items of a segment. -/
def listItems : List Item → List Listed.Item
  | [] => []
  | item :: rest => item.listed :: listItems rest

/-- Segments after the first one, each with the comma before it. -/
def listSegments : List (List Item) → List Listed.Item
  | [] => []
  | segment :: rest => .comma :: .expr (.group (listItems segment) false) :: listSegments rest

/-- Arguments. -/
def listAll : List Expr → List Listed.Expr
  | [] => []
  | e :: rest => e.listed :: listAll rest

end

/-- Segments as groups of their own with commas between them. -/
def separated (first : List Item) (more : List (List Item)) : List Listed.Item :=
  .expr (.group (listItems first) false) :: listSegments more

/-- A group with its commas as items. -/
def Group.listed (g : Group) : Listed.Group :=
  match g.more with
  | [] => ⟨listItems g.first, false⟩
  | second :: more => ⟨separated g.first (second :: more), true⟩

/-- A syntax error with the commas of the item that it quotes. -/
def SyntaxError.listed : SyntaxError → Listed.Stop
  | .notAValueBeforeDot item => .notAValueBeforeDot item.listed
  | .invalidLeft op item => .invalidLeft op item.listed
  | .invalidRight op item => .invalidRight op item.listed
  | e => .refused e

/-- A result of reading, with the commas as items. -/
def listResult {α β : Type} (f : α → β) : Except SyntaxError α → Except Listed.Stop β
  | .ok a => .ok (f a)
  | .error e => .error e.listed

/-- Listing a result never makes up the arm that is held to be unreachable: an error of the segments
stays an error of the same kind. -/
theorem listResult_ne_unreachable {α β : Type} (f : α → β) (x : Except SyntaxError α) :
    listResult f x ≠ .error .unreachable := by
  intro h
  cases x with
  | ok a => cases h
  | error e => cases e <;> cases h

/-- The one way in which two readers are compared below. If the first halves agree and the second
halves agree wherever the first one succeeds, then the whole readers agree. -/
theorem bind_listResult {α β γ δ : Type} {f : α → β} {g : γ → δ} {x : Except SyntaxError α}
    {k : α → Except SyntaxError γ} {k' : β → Except Listed.Stop δ}
    (h : ∀ a, x = .ok a → k' (f a) = listResult g (k a)) :
    (listResult f x >>= k') = listResult g (x >>= k) := by
  cases x with
  | ok a => exact h a rfl
  | error e => rfl

/-- The items of a segment are listed one by one. The definition repeats the recursion only because
it stands in a mutual block. -/
theorem listItems_eq_map (items : List Item) : listItems items = items.map Item.listed := by
  induction items with
  | nil => rfl
  | cons item items ih => rw [listItems, ih, List.map_cons]

@[simp] theorem listItems_append (items items' : List Item) :
    listItems (items ++ items') = listItems items ++ listItems items' := by
  simp only [listItems_eq_map, List.map_append]

@[simp] theorem listItems_reverse (items : List Item) :
    listItems items.reverse = (listItems items).reverse := by
  simp only [listItems_eq_map, List.map_reverse]

theorem listAll_eq_map (es : List Expr) : listAll es = es.map Expr.listed := by
  induction es with
  | nil => rfl
  | cons e es ih => rw [listAll, ih, List.map_cons]

@[simp] theorem listAll_append (es es' : List Expr) :
    listAll (es ++ es') = listAll es ++ listAll es' := by
  simp only [listAll_eq_map, List.map_append]

/-- Taking a group as an expression commutes with listing it, with one segment and with several. -/
theorem Group.toExpr_listed (g : Group) : g.toExpr.listed = g.listed.toExpr := by
  obtain ⟨first, more⟩ := g
  cases more <;> rfl

/-- A group among items is listed as a group of its own, whatever the number of its segments. -/
theorem listItems_group (first : List Item) (more : List (List Item)) (rest : List Item) :
    listItems (.expr (.group first more) :: rest) =
      .expr (Group.mk first more).listed.toExpr :: listItems rest := by
  rw [← Group.toExpr_listed]
  rfl

/-! ### Nesting -/

namespace Nesting

/-- A level with its commas as items. -/
def Level.listed (level : Level) : Listed.Level :=
  ⟨level.ended.flatMap fun segment => [.expr (.group (listItems segment) false), .comma],
    listItems level.current⟩

/-- What is pushed comes to the end of the current segment, and there are no commas after that. -/
theorem Level.listed_push (level : Level) (items : List Item) :
    (level.push items).listed = level.listed.push (listItems items) := by
  simp [Level.listed, Level.push, Listed.Level.push]

/-- A comma ends the current segment and starts an empty one; in a list it is one more item. -/
theorem Level.listed_comma (level : Level) : level.comma.listed = level.listed.comma := by
  simp [Level.listed, Level.comma, Listed.Level.comma, listItems]

/-- It makes no difference whether a comma is kept with the segment before it or with the one after
it. -/
theorem separated_append (first : List Item) (more : List (List Item)) (current : List Item) :
    separated first (more ++ [current]) =
      ((first :: more).flatMap fun segment => [.expr (.group (listItems segment) false), .comma]) ++
        [.expr (.group (listItems current) false)] := by
  induction more generalizing first with
  | nil => rfl
  | cons second more ih =>
    have hrest := ih second
    rw [separated] at hrest
    rw [List.cons_append, separated, listSegments, hrest]
    rfl

/-- Closing a level keeps its list. The level holds each comma after the segment that it ends and
the group holds it before the segment that it starts, so this rests on `separated_append`. -/
theorem Level.listed_close (level : Level) : level.close.listed = level.listed.finish := by
  obtain ⟨ended, current⟩ := level
  cases ended with
  | nil => rfl
  | cons first more =>
    have hclose : (Level.mk (first :: more) current).close.listed =
        ⟨separated first (more ++ [current]), true⟩ := by
      cases more <;> rfl
    rw [hclose, separated_append]
    rfl

/-- A pair of brackets becomes the same items, square ones with the call that they stand for. -/
theorem bracketItems_listed (b : Bracket) (g : Group) :
    listItems (bracketItems b g) = Listed.bracketItems b g.listed := by
  cases b <;> simp only [bracketItems, Listed.bracketItems, listItems, Item.listed, Expr.listed,
    Group.toExpr_listed]

/-- The tokens before the end of the input. -/
def tokensOf : List Listed.Word → List Token
  | .token t :: rest => t :: tokensOf rest
  | _ => []

theorem tokensOf_map (tokens : List Token) : tokensOf (tokens.map .token) = tokens := by
  induction tokens with
  | nil => rfl
  | cons t tokens ih => rw [List.map_cons, tokensOf, ih]

/-- The level and the open brackets after one more token. -/
def next (level : Level) (outer : List (Bracket × Level)) :
    Token → Except SyntaxError (Level × List (Bracket × Level))
  | .opening b => .ok (.start, (b, level) :: outer)
  | .closing b =>
    match outer with
    | [] => .error (.unopened b)
    | (opened, around) :: outer =>
      if opened = b then .ok (around.push (bracketItems b level.close), outer)
      else .error (.mismatched opened b)
  | .comma => .ok (level.comma, outer)
  | .dot => .ok (level.push [.dot], outer)
  | .operator op => .ok (level.push [.operator op], outer)
  | .number x => .ok (level.push [.expr (.number x)], outer)
  | .name n => .ok (level.push [.expr (.name n)], outer)

/-- Nesting goes token by token: what is left is nested from the level and the open brackets that
the first token leads to. -/
theorem nestFrom_cons (level : Level) (outer : List (Bracket × Level)) (t : Token)
    (rest : List Token) :
    nestFrom level outer (t :: rest) =
      next level outer t >>= fun reached => nestFrom reached.1 reached.2 rest := by
  cases t with
  | closing b =>
    cases outer with
    | nil => rfl
    | cons around outer =>
      by_cases hopened : around.1 = b
      · rw [nestFrom, next, if_pos hopened, if_pos hopened]
        rfl
      · rw [nestFrom, next, if_neg hopened, if_neg hopened]
        rfl
  | _ => rfl

/-- A level and the open brackets around it, with the commas as items. -/
def listOpen (reached : Level × List (Bracket × Level)) : Listed.Open :=
  ⟨reached.1.listed, reached.2.map fun around => (around.1, around.2.listed)⟩

/-- A push reaches the innermost level only. -/
theorem listOpen_push (level : Level) (items : List Item) (outer : List (Bracket × Level)) :
    listOpen (level.push items, outer) =
      ⟨level.listed.push (listItems items), (listOpen (level, outer)).outer⟩ := by
  rw [← Level.listed_push]
  rfl

theorem listOpen_comma (level : Level) (outer : List (Bracket × Level)) :
    listOpen (level.comma, outer) = ⟨level.listed.comma, (listOpen (level, outer)).outer⟩ := by
  rw [← Level.listed_comma]
  rfl

/-- One token does the same to a list as to its segments. -/
theorem step_listed (level : Level) (outer : List (Bracket × Level)) (t : Token) :
    (listOpen (level, outer)).step (.token t) = listResult listOpen (next level outer t) := by
  cases t with
  | opening b => rfl
  | closing b =>
    cases outer with
    | nil => rfl
    | cons around outer =>
      obtain ⟨opened, around⟩ := around
      show (if opened = b then _ else _) = listResult listOpen (if opened = b then _ else _)
      by_cases hopened : opened = b
      · have hpush := listOpen_push around (bracketItems b level.close) outer
        rw [bracketItems_listed, Level.listed_close] at hpush
        rw [if_pos hopened, if_pos hopened]
        exact congrArg Except.ok hpush.symm
      · rw [if_neg hopened, if_neg hopened]
        rfl
  | comma => exact congrArg Except.ok (listOpen_comma level outer).symm
  | dot => exact congrArg Except.ok (listOpen_push level [.dot] outer).symm
  | operator op => exact congrArg Except.ok (listOpen_push level [.operator op] outer).symm
  | number x => exact congrArg Except.ok (listOpen_push level [.expr (.number x)] outer).symm
  | name n => exact congrArg Except.ok (listOpen_push level [.expr (.name n)] outer).symm

/-- At the end of the input both readers close the one open level, or name the same unclosed
bracket. -/
theorem finish_listed (level : Level) (outer : List (Bracket × Level)) :
    (listOpen (level, outer)).finish = listResult Group.listed (nestFrom level outer []) := by
  cases outer with
  | nil => exact congrArg Except.ok (Level.listed_close level).symm
  | cons around outer => rfl

/-- A run over words is nesting of their tokens, from any level with any brackets open around it.
The words after an end of the input are not read. -/
theorem run_listed (level : Level) (outer : List (Bracket × Level)) (words : List Listed.Word) :
    (listOpen (level, outer)).run words =
      listResult Group.listed (nestFrom level outer (tokensOf words)) := by
  -- Induction on the words; level and open brackets change with every token, so both are general.
  induction words generalizing level outer with
  | nil => exact finish_listed level outer
  | cons word words ih =>
    cases word with
    | eof => exact finish_listed level outer
    | token t =>
      show ((listOpen (level, outer)).step (.token t) >>= fun s => s.run words) = _
      rw [step_listed, tokensOf, nestFrom_cons]
      exact bind_listResult fun reached _ => ih reached.1 reached.2

/-- Grouping words is nesting the tokens before the end of the input. -/
theorem group_listed (words : List Listed.Word) :
    Listed.group words = listResult Group.listed (nest (tokensOf words)) :=
  run_listed .start [] words

end Nesting

/-! ### Folding -/

namespace Folding

/-- The segments between commas are found again, in their order. -/
theorem segments_listSegments (segments : List (List Item)) :
    Listed.segments (listSegments segments) =
      .ok (listAll (segments.map fun segment => .group segment [])) := by
  induction segments with
  | nil => rfl
  | cons segment segments ih =>
    rw [listSegments, Listed.segments, Listed.segments, ih]
    rfl

/-- A call receives the same arguments: none from empty brackets, one from a segment, and as many as
there are segments otherwise. -/
theorem arguments_listed (g : Group) :
    Listed.arguments g.listed = .ok (listAll (arguments g.first g.more)) := by
  obtain ⟨first, more⟩ := g
  cases more with
  | nil => cases first <;> rfl
  | cons second more =>
    show Listed.segments (separated first (second :: more)) = _
    rw [separated, Listed.segments, segments_listSegments]
    cases first <;> rfl

/-- A group is placed in the same way: as the arguments of the name before it, as those of a method
call with its receiver, or as a value of its own. The same items are refused before the dot. -/
theorem placeGroup_listed (g : Group) (passed : List Item) :
    Listed.placeGroup g.listed (listItems passed) =
      listResult listItems (placeGroup g.first g.more passed) := by
  have hplaced (passed : List Item) : (.ok (.expr g.listed.toExpr :: listItems passed) :
      Except Listed.Stop (List Listed.Item)) =
        listResult listItems (.ok (.expr g.toExpr :: passed)) := by
    rw [← Group.toExpr_listed]
    rfl
  have hcall (n : String) (receivers : List Expr) (passed : List Item) :
      (Listed.arguments g.listed >>= fun arguments =>
        .ok (.expr (.call n (listAll receivers ++ arguments)) :: listItems passed)) =
      listResult listItems
        (.ok (.expr (.call n (receivers ++ arguments g.first g.more)) :: passed)) := by
    rw [arguments_listed, listResult, listItems, Item.listed, Expr.listed, listAll_append]
    rfl
  -- The cases go as far back as the placing looks: to a name, to a dot before it, and to what
  -- stands before the dot.
  cases passed with
  | nil => exact hplaced []
  | cons item passed =>
    cases item with
    | operator op => exact hplaced (.operator op :: passed)
    | dot => exact hplaced (.dot :: passed)
    | expr e =>
      cases e with
      | name n =>
        cases passed with
        | nil => exact hcall n [] []
        | cons item passed =>
          cases item with
          | operator op => exact hcall n [] (.operator op :: passed)
          | expr e => exact hcall n [] (.expr e :: passed)
          | dot =>
            cases passed with
            | nil => rfl
            | cons item passed =>
              cases item with
              | expr receiver => exact hcall n [receiver] passed
              | _ => rfl
      | group first more =>
        cases more with
        | nil => exact hplaced (.expr (.group first []) :: passed)
        | cons second more => exact hplaced (.expr (.group first (second :: more)) :: passed)
      | number x => exact hplaced (.expr (.number x) :: passed)
      | nothing => exact hplaced (.expr .nothing :: passed)
      | target n => exact hplaced (.expr (.target n) :: passed)
      | operation op left right => exact hplaced (.expr (.operation op left right) :: passed)
      | call n arguments => exact hplaced (.expr (.call n arguments) :: passed)

/-- The pass that forms calls does the same to a list of items as to a segment. -/
theorem foldCalls_listed (passed items : List Item) :
    Listed.foldCalls (listItems passed) (listItems items) =
      listResult listItems (foldCalls passed items) := by
  fun_induction foldCalls passed items with
  | case1 passed => exact congrArg Except.ok (listItems_reverse passed).symm
  | case2 passed first more rest passed' hplace ih =>
    rw [listItems_group, Listed.foldCalls_group, placeGroup_listed, hplace]
    exact ih
  | case3 passed first more rest e hplace =>
    rw [listItems_group, Listed.foldCalls_group, placeGroup_listed, hplace]
    rfl
  | case4 passed item rest hitem ih =>
    rw [← ih]
    cases item with
    -- only a group is placed, and the last case has excluded it
    | expr e =>
      cases e with
      | group first more => exact (hitem first more rfl).elim
      | _ => rfl
    | _ => rfl

/-- The bound that is taken for a missing left operand contains no group. -/
theorem implicitLeft_listed (op : Operator) :
    Listed.implicitLeft op = (implicitLeft op).map Expr.listed := by
  cases op <;> rfl

theorem implicitRight_listed (op : Operator) :
    Listed.implicitRight op = (implicitRight op).map Expr.listed := by
  cases op <;> rfl

/-- An operation is built in the same way; an assignment to brackets around a name has its target in
both. -/
theorem operation_listed (op : Operator) (left right : Expr) :
    (operation op left right).listed = Listed.operation op left.listed right.listed := by
  cases op with
  | assign =>
    cases left with
    | group first more => cases more <;> rfl
    | _ => rfl
  | _ => rfl

/-- An operand and the items before it. -/
def listTaken (taken : Expr × List Item) : Listed.Expr × List Listed.Item :=
  (taken.1.listed, listItems taken.2)

/-- The operand to the left of an operator is the same, and so is the refusal of what cannot be one.
-/
theorem leftOperand_listed (tier : Tier) (op : Operator) (passed : List Item) :
    Listed.leftOperand tier op (listItems passed) =
      listResult (Option.map listTaken) (leftOperand tier op passed) := by
  cases passed with
  | nil =>
    simp only [listItems, Listed.leftOperand, leftOperand, implicitLeft_listed]
    cases implicitLeft op <;> rfl
  | cons item passed =>
    cases item with
    | expr left =>
      show Except.ok (if tier.prefixOnly then _ else _) = Except.ok (Option.map _ _)
      split <;> rfl
    | _ =>
      simp only [listItems, Item.listed, Listed.leftOperand, leftOperand, implicitLeft_listed]
      cases implicitLeft op <;> rfl

/-- One pass of the folding does the same to a list of items as to a segment, from any items passed
before. -/
theorem foldTier_listed (tier : Tier) (passed items : List Item) :
    Listed.foldTier tier (listItems passed) (listItems items) =
      listResult listItems (foldTier tier passed items) := by
  -- Induction along the pass. The first cases fail or go on without a left operand; with one, the
  -- cases are those of the right operand: a value, the end of the segment, or another item; the
  -- last two pass over an item that the tier does not take.
  fun_induction foldTier tier passed items with
  | case1 passed => exact congrArg Except.ok (listItems_reverse passed).symm
  | case2 passed op rest hop e hleft =>
    rw [listItems, Item.listed, Listed.foldTier, if_pos hop, leftOperand_listed, hleft]
    rfl
  | case3 passed op rest hop hleft ih =>
    rw [listItems, Item.listed, Listed.foldTier, if_pos hop, leftOperand_listed, hleft]
    exact ih
  | case4 passed op hop left passed' hleft right rest ih =>
    rw [listItems, Item.listed, operation_listed] at ih
    rw [listItems, Item.listed, Listed.foldTier, if_pos hop, leftOperand_listed, hleft]
    exact ih
  | case5 passed op hop left passed' hleft right hright =>
    rw [listItems, listItems, Item.listed, Listed.foldTier, if_pos hop, leftOperand_listed, hleft]
    simp only [listResult, Option.map, listTaken, implicitRight_listed, hright]
    rw [listItems_reverse, listItems, Item.listed, operation_listed]
  | case6 passed op hop left passed' hleft hright =>
    rw [listItems, listItems, Item.listed, Listed.foldTier, if_pos hop, leftOperand_listed, hleft]
    simp only [listResult, Option.map, listTaken, implicitRight_listed, hright]
    rfl
  | case7 passed op hop left passed' hleft item rest hitem right hright ih =>
    rw [listItems, Item.listed, operation_listed] at ih
    rw [listItems, Item.listed, Listed.foldTier, if_pos hop, leftOperand_listed, hleft]
    cases item with
    | expr e => exact (hitem e rfl).elim
    | _ =>
      simp only [listResult, Option.map, listTaken, listItems, Item.listed, implicitRight_listed,
        hright]
      exact ih
  | case8 passed op hop left passed' hleft item rest hitem hright =>
    rw [listItems, Item.listed, Listed.foldTier, if_pos hop, leftOperand_listed, hleft]
    cases item with
    | expr e => exact (hitem e rfl).elim
    | _ =>
      simp only [listResult, Option.map, listTaken, listItems, Item.listed, implicitRight_listed,
        hright]
      rfl
  | case9 passed op rest hop ih =>
    rw [listItems, Item.listed, Listed.foldTier, if_neg hop]
    exact ih
  | case10 passed item rest hitem ih =>
    rw [← ih]
    cases item with
    | operator op => exact (hitem op rfl).elim
    | _ => rfl

/-- The passes agree one after another, so they agree in a row. -/
theorem foldTiers_listed (tiers : List Tier) (items : List Item) :
    Listed.foldTiers tiers (listItems items) = listResult listItems (foldTiers tiers items) := by
  induction tiers generalizing items with
  | nil => rfl
  | cons tier more ih =>
    have htier := foldTier_listed tier [] items
    rw [listItems] at htier
    rw [foldTiers, Listed.foldTiers, htier]
    cases foldTier tier [] items with
    | error e => rfl
    | ok items => exact ih items

/-- All passes over one segment: first the calls, then the tiers. -/
theorem foldItems_listed (items : List Item) :
    Listed.foldItems (listItems items) = listResult listItems (foldSegment items) := by
  have hcalls := foldCalls_listed [] items
  rw [listItems] at hcalls
  rw [foldSegment, Listed.foldItems, hcalls]
  cases foldCalls [] items with
  | error e => rfl
  | ok items => exact foldTiers_listed tiers items

/-! ### Segments and commas in the passes -/

/-- The pass that forms calls leaves segments and the commas between them alone. -/
theorem foldCalls_listSegments (passed : List Listed.Item) (segments : List (List Item)) :
    Listed.foldCalls passed (listSegments segments) =
      .ok (passed.reverse ++ listSegments segments) := by
  induction segments generalizing passed with
  | nil => rw [listSegments, Listed.foldCalls, List.append_nil]
  | cons segment segments ih =>
    -- the comma stands between a name before it and the segment, which is no pair of brackets of a call
    show Listed.foldCalls (.expr (.group (listItems segment) false) :: .comma :: passed)
      (listSegments segments) = _
    rw [ih, listSegments, List.reverse_cons, List.reverse_cons, List.append_assoc, List.append_assoc]
    rfl

/-- No tier takes a comma, and a segment in a list of them is a group, so a tier has nothing to
fold. -/
theorem foldTier_listSegments (tier : Tier) (passed : List Listed.Item)
    (segments : List (List Item)) :
    Listed.foldTier tier passed (listSegments segments) =
      .ok (passed.reverse ++ listSegments segments) := by
  induction segments generalizing passed with
  | nil => rw [listSegments, Listed.foldTier, List.append_nil]
  | cons segment segments ih =>
    show Listed.foldTier tier (.expr (.group (listItems segment) false) :: .comma :: passed)
      (listSegments segments) = _
    rw [ih, listSegments, List.reverse_cons, List.reverse_cons, List.append_assoc, List.append_assoc]
    rfl

/-- The tiers leave separated segments alone. -/
theorem foldTiers_separated (tiers : List Tier) (first : List Item) (more : List (List Item)) :
    Listed.foldTiers tiers (separated first more) = .ok (separated first more) := by
  induction tiers with
  | nil => rfl
  | cons tier tiers ih =>
    have htier : Listed.foldTier tier [] (separated first more) = .ok (separated first more) :=
      foldTier_listSegments tier [.expr (.group (listItems first) false)] more
    rw [Listed.foldTiers, htier]
    exact ih

/-- No pass finds anything to do among segments and commas. -/
theorem foldItems_separated (first : List Item) (more : List (List Item)) :
    Listed.foldItems (separated first more) = .ok (separated first more) := by
  have hcalls : Listed.foldCalls [] (separated first more) = .ok (separated first more) :=
    foldCalls_listSegments [.expr (.group (listItems first) false)] more
  rw [Listed.foldItems, hcalls]
  exact foldTiers_separated tiers first more

/-! ### Groups in groups -/

/-- A group among items is folded as it is folded alone. -/
theorem resolveItems_eq_resolve (first : List Item) (more : List (List Item)) (rest : List Item) :
    resolveItems (.expr (.group first more) :: rest) = (do
      let g ← Group.resolve ⟨first, more⟩
      let rest ← resolveItems rest
      return .expr g.toExpr :: rest) := by
  rw [resolveItems, Group.resolve]
  simp only [bind_assoc, pure_bind]
  rfl

/-- An item that is no group stays as it is, and is none in a list either. -/
theorem resolveItems_listed_cons {item : Item} {rest : List Item}
    (hitem : ∀ first more, item ≠ .expr (.group first more))
    (h : Listed.resolveItems (listItems rest) = listResult listItems (resolveItems rest)) :
    Listed.resolveItems (listItems (item :: rest)) =
      listResult listItems (resolveItems (item :: rest)) := by
  -- listing makes a group of nothing that was none
  have hlisted : ∀ items hasComma, item.listed ≠ .expr (.group items hasComma) := by
    cases item with
    | expr e =>
      cases e with
      | group first more => exact absurd rfl (hitem first more)
      | _ => simp [Item.listed, Expr.listed]
    | _ => simp [Item.listed]
  rw [listItems, resolveItems, Listed.resolveItems, h]
  · exact bind_listResult fun rest _ => rfl
  · exact hlisted
  · exact hitem

/-- A group is folded as a list if the groups in its segments are. -/
theorem resolve_listed_of {first : List Item} {more : List (List Item)}
    (hfirst : Listed.resolveItems (listItems first) = listResult listItems (resolveItems first))
    (hmore : Listed.resolveItems (listSegments more) =
      listResult listSegments (resolveSegments more)) :
    Listed.resolve (Group.mk first more).listed =
      listResult Group.listed (Group.mk first more).resolve := by
  cases more with
  | nil =>
    show (Listed.resolveItems (listItems first) >>= _) = _
    rw [hfirst]
    refine bind_listResult fun items _ => ?_
    rw [foldItems_listed]
    refine bind_listResult fun first _ => ?_
    show _ = listResult Group.listed (resolveSegments [] >>= _)
    rw [resolveSegments]
    rfl
  -- several segments: each is a group in the list, folded there before the list as a whole is
  | cons second more =>
    show (Listed.resolveItems (.expr (Listed.Group.toExpr ⟨listItems first, false⟩) ::
      listSegments (second :: more)) >>= _) = _
    rw [Listed.resolveItems_group, hmore]
    simp only [Listed.resolve, hfirst, bind_assoc, pure_bind]
    refine bind_listResult fun items _ => ?_
    rw [foldItems_listed]
    refine bind_listResult fun first _ => ?_
    refine bind_listResult fun segments hsegments => ?_
    obtain ⟨_, second, more, -, -, -, rfl⟩ := resolveSegments_cons_inv hsegments
    -- the segments have been folded one by one, so the passes over the whole list find nothing
    show (Listed.foldItems (separated first (second :: more)) >>= _) = _
    rw [foldItems_separated]
    rfl

mutual

/-- The groups among items, at every depth, are folded as lists are. Together with
`resolveSegments_listed` this is the induction over the tree, one case per kind of item. -/
theorem resolveItems_listed : ∀ items : List Item,
    Listed.resolveItems (listItems items) = listResult listItems (resolveItems items)
  | [] => by
    rw [listItems, Listed.resolveItems, resolveItems]
    rfl
  | .expr (.group first more) :: rest => by
    rw [listItems_group, Listed.resolveItems_group, resolveItems_eq_resolve,
      resolve_listed_of (resolveItems_listed first) (resolveSegments_listed more)]
    refine bind_listResult fun g _ => ?_
    rw [resolveItems_listed rest, ← Group.toExpr_listed]
    exact bind_listResult fun rest _ => rfl
  | .expr (.number _) :: rest | .expr .nothing :: rest | .expr (.name _) :: rest
  | .expr (.target _) :: rest | .expr (.operation _ _ _) :: rest | .expr (.call _ _) :: rest
  | .operator _ :: rest | .dot :: rest =>
    resolveItems_listed_cons (by simp) (resolveItems_listed rest)

/-- The segments after the first one are folded as the groups that they are in a list. -/
theorem resolveSegments_listed : ∀ segments : List (List Item),
    Listed.resolveItems (listSegments segments) =
      listResult listSegments (resolveSegments segments)
  | [] => by
    rw [listSegments, Listed.resolveItems, resolveSegments]
    rfl
  | segment :: rest => by
    -- in a list a segment is a group, and folding that group folds the items of the segment
    have hgroup := Listed.resolveItems_group ⟨listItems segment, false⟩ (listSegments rest)
    simp only [Listed.Group.toExpr, Listed.resolve, bind_assoc, pure_bind] at hgroup
    rw [listSegments, Listed.resolveItems, hgroup, resolveSegments, resolveItems_listed segment]
    · simp only [bind_assoc, pure_bind]
      refine bind_listResult fun items _ => ?_
      rw [foldItems_listed]
      refine bind_listResult fun segment _ => ?_
      rw [resolveSegments_listed rest]
      exact bind_listResult fun rest _ => rfl
    · exact fun _ _ h => nomatch h

end

end Folding

/-! ### Reading as a whole -/

/-- Folding a group is the same for the list of its segments. -/
theorem Group.resolve_listed (g : Group) :
    Listed.resolve g.listed = listResult Group.listed g.resolve :=
  Folding.resolve_listed_of (Folding.resolveItems_listed g.first)
    (Folding.resolveSegments_listed g.more)

/-- The expression that a folded group stands for, or the error if it holds more than one item. -/
theorem Group.expression_listed (g : Group) :
    g.listed.expression = listResult Expr.listed g.expression := by
  obtain ⟨first, more⟩ := g
  rcases first with _ | ⟨_ | _ | _, _ | _⟩ <;> cases more <;> rfl

/-- No error of a scan quotes an item. -/
theorem listed_of_tokenize {source : String} {e : SyntaxError} (h : tokenize source = .error e) :
    e.listed = .refused e := by
  have herror : (Scan.ofSource source).error? = Scan.refusal? source.toList :=
    Scan.scan_error false source.toList
  have hrefusal : Scan.refusal? source.toList = some e := by
    rw [← herror]
    simp only [tokenize] at h
    split at h
    · cases h
    · rename_i heq
      cases h
      exact heq
  obtain ⟨before, c, after, -, -, -, rfl⟩ := Scan.refusal?_eq_some_iff.mp hrefusal
  unfold Scan.refusal
  split <;> rfl

/-- A source has the same group as a list, or the same error. -/
theorem read_listed (source : String) :
    Listed.read source = listResult Group.listed (tokenize source >>= nest) := by
  rw [Listed.read]
  cases htokens : tokenize source with
  | ok tokens =>
    show Listed.group (tokens.map .token) = listResult Group.listed (nest tokens)
    rw [Nesting.group_listed, Nesting.tokensOf_map]
  | error e => exact congrArg Except.error (listed_of_tokenize htokens).symm

/-- A source has the same expression whether commas are items or not, or the same error. -/
theorem parse_listed (source : String) :
    Listed.parse source = listResult Expr.listed (parse source) := by
  have hparse : parse source =
      (tokenize source >>= nest) >>= fun g => g.resolve >>= Group.expression := by
    rw [bind_assoc]
    rfl
  rw [Listed.parse, read_listed, hparse]
  refine bind_listResult fun g _ => ?_
  rw [Group.resolve_listed]
  exact bind_listResult fun resolved _ => Group.expression_listed resolved

end PixelCalc
