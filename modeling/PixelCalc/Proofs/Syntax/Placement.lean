import PixelCalc.Proofs.Syntax.Resolution

/-!
# Where targets and missing operands stand

Two kinds of expression are no operands of their own: the target of an assignment, which folding
makes of the name directly on the left of `=`, and nothing, which prefix powers and open ranges take
for an operand that they do not have. In the tree of a source they stand only there.

- `Placed`: they stand only there.
- `kept_placed`: folding keeps this.
- `parse_placed`: the trees of sources have it.
-/

namespace PixelCalc

mutual

/-- A target stands only on the left of `=`, and nothing only on the left of a power or a range or
on the right of a range. -/
inductive Placed : Expr → Prop
  | number (x : Float) : Placed (.number x)
  | name (n : String) : Placed (.name n)
  | group {first : List Item} {more : List (List Item)}
      (h : ∀ segment ∈ first :: more, ∀ e, .expr e ∈ segment → Placed e) :
      Placed (.group first more)
  | operation {op : Operator} {left right : Expr} (hl : PlacedLeft op left)
      (hr : PlacedRight op right) : Placed (.operation op left right)
  | call {n : String} {arguments : List Expr} (h : ∀ a ∈ arguments, Placed a) :
      Placed (.call n arguments)

/-- What may stand on the left of an operator. -/
inductive PlacedLeft : Operator → Expr → Prop
  | operand {op : Operator} {left : Expr} (h : Placed left) : PlacedLeft op left
  | target (n : String) : PlacedLeft .assign (.target n)
  | power : PlacedLeft .power .nothing
  | range : PlacedLeft .range .nothing

/-- What may stand on the right of an operator. -/
inductive PlacedRight : Operator → Expr → Prop
  | operand {op : Operator} {right : Expr} (h : Placed right) : PlacedRight op right
  | range : PlacedRight .range .nothing

end

open Folding

variable {op : Operator} {left right : Expr}

theorem placedLeft_of_implicit (h : implicitLeft op = some left) : PlacedLeft op left := by
  cases op <;> cases h
  · exact .operand (.number 0)
  · exact .operand (.number 0)
  · exact .power
  · exact .range

theorem placedRight_of_implicit (h : implicitRight op = some right) : PlacedRight op right := by
  cases op <;> cases h
  exact .range

/-- Folding a name under `=` makes a target of it, and puts it in its place. -/
theorem placed_operation (hl : PlacedLeft op left) (hr : PlacedRight op right) :
    Placed (operation op left right) := by
  unfold operation
  split
  · exact .operation (.target _) hr
  · exact .operation hl hr

/-- Resolution keeps trees placed, at every step that builds one. -/
theorem kept_placed : Kept Placed where
  number := .number
  name := .name
  group := .group
  segments h := by
    cases h with
    | group h => exact h
  operation hl hr :=
    placed_operation (hl.elim .operand placedLeft_of_implicit)
      (hr.elim .operand placedRight_of_implicit)
  call := .call

/-- In the tree of a source targets and missing operands stand in their places. -/
theorem parse_placed {source : String} {e : Expr} (h : parse source = .ok e) : Placed e :=
  parse_kept kept_placed h

end PixelCalc
