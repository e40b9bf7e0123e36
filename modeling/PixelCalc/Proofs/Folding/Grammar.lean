import PixelCalc.Syntax.Folding

/-!
# The grammar of a segment

The operands and operators of one segment, told as a grammar from the loosest level to the tightest:

    Assign := Cmp ('=' Cmp)*
    Cmp    := Add (comparison Add)*
    Add    := [+|-] Mul ((+|-) Mul)*
    Mul    := Pow ((*|/|%) Pow)*
    Pow    := Rng ('**' Rng)*
    Rng    := Un | [Un] '..' [Un] ('..' [Un])*
    Un     := operand | '**' operand

Every level is a relation between lists of items and trees that takes the level below as a
parameter, so that the levels can be exchanged for simpler ones while the folding passes are
followed through them. Nothing here mentions the passes.

- `Chain`: operands between operators, grouped from the left.
- `Unary`, `Ranged`, `Power`, `Product`, `Sum`, `Comparison`, `Assignment`: the levels.
- `Segment`: all levels. It takes a `Junction` for `**`, the only sign that could be read in two
  ways: `5 .. ** 3` is a range up to `** 3`, or the third power of the range `5 ..`.
-/

namespace PixelCalc
namespace Grammar

/-- The lists of items of one syntactic level, each with its tree. -/
abbrev Phrase : Type :=
  List Item → Expr → Prop

/-- Whether an operator may stand between the items on its left and those on its right. -/
abbrev Junction : Type :=
  List Item → Operator → List Item → Prop

/-! ### Chains -/

/-- The left operand of an operation: a bare name on the left of `=` is the name assigned to. -/
def leftOperandOf : Operator → Expr → Expr
  | .assign, .name n => .target n
  | _, e => e

/-- `Head (op Operand)*`: every operator takes all that stands on its left. -/
inductive Chain (Joins : Junction) (Head Operand : Phrase) : Phrase
  | head {items : List Item} {e : Expr} (h : Head items e) : Chain Joins Head Operand items e
  | more {l r : List Item} {a b : Expr} {op : Operator} (hl : Chain Joins Head Operand l a)
      (hop : Joins l op r) (hr : Operand r b) :
      Chain Joins Head Operand (l ++ .operator op :: r) (.operation op (leftOperandOf op a) b)

/-- The operators of a level, whatever stands around them. -/
def oneOf (ops : List Operator) : Junction :=
  fun _ op _ => op ∈ ops

/-! ### Operands and ranges -/

/-- `Un := operand | '**' operand`. -/
inductive Unary : Phrase
  | operand (e : Expr) : Unary [.expr e] e
  | prefixed (e : Expr) : Unary [.operator .power, .expr e] (.operation .power .nothing e)

/-- `[Un]`: a bound that may be missing. -/
inductive Bound (Un : Phrase) : Phrase
  | missing : Bound Un [] .nothing
  | present {items : List Item} {e : Expr} (h : Un items e) : Bound Un items e

/-- `[Un] '..' [Un] ('..' [Un])*`. -/
inductive Interval (Un : Phrase) : Phrase
  | first {l r : List Item} {a b : Expr} (hl : Bound Un l a) (hr : Bound Un r b) :
      Interval Un (l ++ .operator .range :: r) (.operation .range a b)
  | next {l r : List Item} {a b : Expr} (hl : Interval Un l a) (hr : Bound Un r b) :
      Interval Un (l ++ .operator .range :: r) (.operation .range a b)

/-- `Rng := Un | [Un] '..' [Un] ('..' [Un])*`. -/
inductive Ranged (Un : Phrase) : Phrase
  | unary {items : List Item} {e : Expr} (h : Un items e) : Ranged Un items e
  | interval {items : List Item} {e : Expr} (h : Interval Un items e) : Ranged Un items e

/-! ### Operators -/

/-- `Pow := Rng ('**' Rng)*`, given where `**` may stand between two ranges. -/
def Power (Joins : Junction) (Rng : Phrase) : Phrase :=
  Chain Joins Rng Rng

/-- `Mul := Pow ((*|/|%) Pow)*`. -/
def Product (Pow : Phrase) : Phrase :=
  Chain (oneOf [.times, .divide, .remainder]) Pow Pow

/-- `[sign] Operand`: a sign with nothing on its left takes `left` instead. -/
inductive Signed (signs : List Operator) (left : Expr) (Operand : Phrase) : Phrase
  | plain {items : List Item} {e : Expr} (h : Operand items e) : Signed signs left Operand items e
  | signed {op : Operator} {items : List Item} {e : Expr} (hop : op ∈ signs)
      (h : Operand items e) :
      Signed signs left Operand (.operator op :: items) (.operation op left e)

/-- `Add := [+|-] Mul ((+|-) Mul)*`: a sign at the front adds to zero or subtracts from it. -/
def Sum (Mul : Phrase) : Phrase :=
  Chain (oneOf [.plus, .minus]) (Signed [.plus, .minus] (.number 0) Mul) Mul

/-- `Cmp := Add (comparison Add)*`. -/
def Comparison (Add : Phrase) : Phrase :=
  Chain (oneOf [.equal, .notEqual, .greater, .greaterEqual, .less, .lessEqual]) Add Add

/-- `Assign := Cmp ('=' Cmp)*`. -/
def Assignment (Cmp : Phrase) : Phrase :=
  Chain (oneOf [.assign]) Cmp Cmp

/-- The levels above the powers. -/
def AbovePowers (Pow : Phrase) : Phrase :=
  Assignment (Comparison (Sum (Product Pow)))

/-- A whole segment. -/
def Segment (Joins : Junction) : Phrase :=
  AbovePowers (Power Joins (Ranged Unary))

/-! ### Where a power may stand -/

/-- An operand stands at the end of the items. -/
def EndsInOperand (items : List Item) : Prop :=
  ∃ e, items.getLast? = some (.expr e)

/-- The items begin with an operand or a prefix power. -/
def BeginsWithUnary (items : List Item) : Prop :=
  ∃ front rest e, items = front ++ rest ∧ Unary front e

/-- `**` stands between two ranges only directly after an operand; elsewhere it is a prefix. -/
def afterOperand : Junction :=
  fun l op _ => op = .power ∧ EndsInOperand l

/-- `**` stands between two ranges unless it would be part of a bound that the range on its left
lacks. -/
def unlessBound : Junction :=
  fun l op r => op = .power ∧
    ¬ (l.getLast? = some (.operator .range) ∧ BeginsWithUnary (.operator op :: r))

end Grammar
end PixelCalc
