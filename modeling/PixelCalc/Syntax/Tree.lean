import PixelCalc.Binary64.Text
import PixelCalc.Syntax.Operator

/-!
# Expression trees

One pair of brackets holds one or more segments separated by commas, and a segment is a list of
items. Reading an expression first nests the tokens into such groups and then folds the items of
every segment, until a segment is one expression.

- `Expr`, `Item`: expressions and the items they are folded from.
- `Group`: the contents of one pair of brackets.
- `Expr.text`, `Item.text`: the text of a tree, as messages quote it.
-/

namespace PixelCalc

mutual

/-- An expression. -/
inductive Expr where
  | number (value : Float)
  /-- The operand of a prefix power or of a range with an open end. -/
  | nothing
  /-- A name read from the environment. -/
  | name (name : String)
  /-- The name on the left of an assignment. -/
  | target (name : String)
  /-- A pair of brackets: its first segment and, after commas, more of them. -/
  | group (first : List Item) (more : List (List Item))
  | operation (op : Operator) (left right : Expr)
  | call (name : String) (arguments : List Expr)

/-- A part of a segment: an expression, or a sign that folding has yet to place. -/
inductive Item where
  | expr (e : Expr)
  | operator (op : Operator)
  | dot

end

/-- The contents of one pair of brackets, or of a whole expression: segments separated by
commas. There is always a first segment, which may be empty. -/
structure Group where
  first : List Item
  more : List (List Item)

namespace Group

/-- A group without a comma. -/
def single (items : List Item) : Group :=
  ⟨items, []⟩

/-- The segments in order. -/
def segments (g : Group) : List (List Item) :=
  g.first :: g.more

/-- The group holds a comma. -/
def hasComma (g : Group) : Bool :=
  !g.more.isEmpty

/-- A group as an expression. -/
def toExpr (g : Group) : Expr :=
  .group g.first g.more

end Group

/-! ### Text -/

mutual

/-- The text of an expression, every operation in brackets. -/
def Expr.text : Expr → String
  | .number x => Binary64.plainText x
  | .nothing => "<nothing>"
  | .name n => n
  | .target n => "VariableRef(" ++ n ++ ")"
  | .group first [] => "(" ++ " ".intercalate (itemTexts first) ++ ")"
  | .group first (second :: more) =>
    "(" ++ " , ".intercalate
      (("(" ++ " ".intercalate (itemTexts first) ++ ")") :: segmentTexts (second :: more)) ++ ")"
  | .operation op left right => "(" ++ left.text ++ " " ++ op.symbol ++ " " ++ right.text ++ ")"
  | .call n arguments => n ++ "(" ++ ", ".intercalate (exprTexts arguments) ++ ")"

/-- The text of an item. -/
def Item.text : Item → String
  | .expr e => e.text
  | .operator op => op.symbol
  | .dot => "."

/-- The texts of the items of a segment. -/
def itemTexts : List Item → List String
  | [] => []
  | item :: rest => item.text :: itemTexts rest

/-- The texts of segments, each in brackets of its own. -/
def segmentTexts : List (List Item) → List String
  | [] => []
  | segment :: rest => ("(" ++ " ".intercalate (itemTexts segment) ++ ")") :: segmentTexts rest

/-- The texts of arguments. -/
def exprTexts : List Expr → List String
  | [] => []
  | e :: rest => e.text :: exprTexts rest

end

/-- The text of a group. -/
def Group.text (g : Group) : String :=
  g.toExpr.text

end PixelCalc
