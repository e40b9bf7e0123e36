import PixelCalc.Syntax.Nesting
import PixelCalc.Syntax.Scan

/-!
# Folding

The items of a segment are folded into one expression: first the calls, then the operators tier by
tier. Every pass goes once from left to right over the items; what it has passed is kept in reverse,
so that the item to the left is at hand.

- `foldCalls`: a group right after a name is a call; a dot and a value before the name give the call
  its first argument.
- `foldTier`: every operator of a tier takes the expression on its left and the next item on its
  right, so that operators of one tier group from the left.
- `foldSegment`: all passes over one segment.
- `Group.resolve`: folds the segments of a group, the inner groups first.
- `parse`: the expression of a source.
-/

namespace PixelCalc
namespace Folding

/-! ### Calls -/

/-- The arguments in the brackets of a call: none, one for the whole group, or one a segment. -/
def arguments (first : List Item) (more : List (List Item)) : List Expr :=
  match first, more with
  | [], [] => []
  | first, more => (first :: more).map fun segment => .group segment []

/-- Places the group `⟨first, more⟩` after the items `passed`, which are in reverse: as the brackets
of a call if a name stands there, else as it is. -/
def placeGroup (first : List Item) (more : List (List Item)) :
    List Item → Except SyntaxError (List Item)
  | .expr (.name n) :: .dot :: .expr receiver :: passed =>
    .ok (.expr (.call n (receiver :: arguments first more)) :: passed)
  | .expr (.name _) :: .dot :: item :: _ => .error (.notAValueBeforeDot item)
  | [.expr (.name _), .dot] => .error .nothingBeforeDot
  | .expr (.name n) :: passed => .ok (.expr (.call n (arguments first more)) :: passed)
  | passed => .ok (.expr (.group first more) :: passed)

/-- Folds the calls of the items that follow `passed`. -/
def foldCalls (passed : List Item) : List Item → Except SyntaxError (List Item)
  | [] => .ok passed.reverse
  | .expr (.group first more) :: rest =>
    match placeGroup first more passed with
    | .ok passed => foldCalls passed rest
    | .error e => .error e
  | item :: rest => foldCalls (item :: passed) rest

/-! ### Operators -/

/-- The left operand of an operator that has no value there: a sign adds to or subtracts from zero,
a prefix power and a range with an open start have nothing on their left. -/
def implicitLeft : Operator → Option Expr
  | .plus | .minus => some (.number 0)
  | .power | .range => some .nothing
  | _ => none

/-- The right operand of an operator that has no value there: only a range may end open. -/
def implicitRight : Operator → Option Expr
  | .range => some .nothing
  | _ => none

/-- The left operand of an operator of this tier and the items before that operand. `none` leaves
the operator to a later tier. -/
def leftOperand (tier : Tier) (op : Operator) :
    List Item → Except SyntaxError (Option (Expr × List Item))
  | .expr left :: passed => .ok (if tier.prefixOnly then none else some (left, passed))
  | passed =>
    match implicitLeft op with
    | some left => .ok (some (left, passed))
    | none =>
      match passed with
      | [] => .error (.missingLeft op)
      | item :: _ => .error (.invalidLeft op item)

/-- An operation. A name on the left of `=` is the target of the assignment. -/
def operation (op : Operator) (left right : Expr) : Expr :=
  match op, left with
  | .assign, .name n => .operation .assign (.target n) right
  | op, left => .operation op left right

/-- Folds the operators of one tier in the items that follow `passed`. An operator without a value
on its right leaves the next item in place. -/
def foldTier (tier : Tier) (passed : List Item) : List Item → Except SyntaxError (List Item)
  | [] => .ok passed.reverse
  | .operator op :: rest =>
    if op ∈ tier.operators then
      match leftOperand tier op passed with
      | .error e => .error e
      | .ok none => foldTier tier (.operator op :: passed) rest
      | .ok (some (left, passed)) =>
        match rest with
        | .expr right :: rest => foldTier tier (.expr (operation op left right) :: passed) rest
        | [] =>
          match implicitRight op with
          | some right => .ok (.expr (operation op left right) :: passed).reverse
          | none => .error (.missingRight op)
        | item :: rest =>
          match implicitRight op with
          | some right => foldTier tier (.expr (operation op left right) :: passed) (item :: rest)
          | none => .error (.invalidRight op item)
    else foldTier tier (.operator op :: passed) rest
  | item :: rest => foldTier tier (item :: passed) rest

/-- Folds the operators of several tiers, one tier after the other. -/
def foldTiers : List Tier → List Item → Except SyntaxError (List Item)
  | [], items => .ok items
  | tier :: more, items =>
    match foldTier tier [] items with
    | .ok items => foldTiers more items
    | .error e => .error e

/-- Folds one segment whose inner groups are folded already. -/
def foldSegment (items : List Item) : Except SyntaxError (List Item) :=
  match foldCalls [] items with
  | .ok items => foldTiers tiers items
  | .error e => .error e

/-! ### Groups -/

mutual

/-- Folds the groups among the items of a segment. -/
def resolveItems : List Item → Except SyntaxError (List Item)
  | [] => .ok []
  | .expr (.group first more) :: rest => do
    let first ← foldSegment (← resolveItems first)
    let more ← resolveSegments more
    let rest ← resolveItems rest
    return .expr (.group first more) :: rest
  | item :: rest => do
    let rest ← resolveItems rest
    return item :: rest

/-- Folds segments in order. -/
def resolveSegments : List (List Item) → Except SyntaxError (List (List Item))
  | [] => .ok []
  | segment :: rest => do
    let segment ← foldSegment (← resolveItems segment)
    let rest ← resolveSegments rest
    return segment :: rest

end

end Folding

/-- Folds a group: the groups in it first, then each of its segments. -/
def Group.resolve (g : Group) : Except SyntaxError Group := do
  let first ← Folding.foldSegment (← Folding.resolveItems g.first)
  let more ← Folding.resolveSegments g.more
  return ⟨first, more⟩

/-- The expression that a folded group is, if it is a single one. -/
def Group.expression (g : Group) : Except SyntaxError Expr :=
  match g.first, g.more with
  | [.expr e], [] => .ok e
  | [], [] => .error .empty
  | _, _ => .error .unresolved

/-- The expression of a source. Names are not looked up. -/
def parse (source : String) : Except SyntaxError Expr := do
  let tokens ← tokenize source
  let group ← nest tokens
  let resolved ← group.resolve
  resolved.expression

end PixelCalc
