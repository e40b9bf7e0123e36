import PixelCalc.Syntax.Folding

/-!
# Reading with commas as items

In brackets with a comma the segments can be kept as one list of items: every segment is a group of
its own, and the commas stand between them. A list of that kind need not be as it should, for an
operator may stand in it, or two commas in a row. Reading has nothing to say about these; it stops
where it finds one (`Stop.unreachable`).

- `Listed.Expr`, `Listed.Item`, `Listed.Group`: trees in which a comma is an item.
- `Listed.Stop`: why reading ends. Besides the syntax errors there are the places that reading is not
  meant to get to.
- `Listed.group`: grouping, with the end of the input as a word of its own.
- `Listed.arguments`, `Listed.foldCalls`, `Listed.foldTier`: the passes over the items of a group.
- `Listed.resolve`, `Listed.parse`: all passes over a group and the groups in it, and the expression
  of a source.
-/

namespace PixelCalc
namespace Listed

mutual

/-- An expression. A pair of brackets has all that stands in it as one list and is marked if there is
a comma. -/
inductive Expr where
  | number (value : Float)
  | nothing
  | name (name : String)
  | target (name : String)
  | group (items : List Item) (hasComma : Bool)
  | operation (op : Operator) (left right : Expr)
  | call (name : String) (arguments : List Expr)

/-- A part of a pair of brackets. -/
inductive Item where
  | expr (e : Expr)
  | operator (op : Operator)
  | dot
  | comma

end

/-- The contents of a pair of brackets, or of a whole expression. -/
structure Group where
  items : List Item
  hasComma : Bool

/-- A group as an expression. -/
def Group.toExpr (g : Group) : Expr :=
  .group g.items g.hasComma

/-- Why reading ends without an expression. -/
inductive Stop where
  /-- A place that reading is not meant to get to. -/
  | unreachable
  | notAValueBeforeDot (item : Item)
  | invalidLeft (op : Operator) (item : Item)
  | invalidRight (op : Operator) (item : Item)
  /-- A syntax error that does not quote an item. -/
  | refused (e : SyntaxError)

/-! ### Grouping -/

/-- A word of the input: a token or the end. -/
inductive Word where
  | token (t : Token)
  | eof

/-- The input ends at this word. -/
def Word.isEof : Word → Bool
  | eof => true
  | token _ => false

/-- What a pair of brackets holds up to the word being read: the segments that a comma has ended, each
with its comma, and the items after the last comma. -/
structure Level where
  segments : List Item
  current : List Item

namespace Level

/-- A level before its first word. -/
def start : Level :=
  ⟨[], []⟩

/-- Adds items to the current segment. -/
def push (level : Level) (items : List Item) : Level :=
  ⟨level.segments, level.current ++ items⟩

/-- Ends the current segment at a comma. -/
def comma (level : Level) : Level :=
  ⟨level.segments ++ [.expr (.group level.current false), .comma], []⟩

/-- The group that a level holds at its end. Without a comma it has the items of the level, with
commas it has the segments. -/
def finish (level : Level) : Group :=
  if level.segments.isEmpty then ⟨level.current, false⟩
  else ⟨level.segments ++ [.expr (.group level.current false)], true⟩

end Level

/-- The items that a closed pair of brackets leaves in the level around it. -/
def bracketItems (b : Bracket) (contents : Group) : List Item :=
  match b with
  | .round => [.expr contents.toExpr]
  | .square => [.dot, .expr (.name indexFunction), .expr contents.toExpr]

/-- The level being read and the open brackets, the innermost first, each with the level in which it
was opened. -/
structure Open where
  level : Level
  outer : List (Bracket × Level)

namespace Open

/-- Reads one word. The end of the input is seen before, so it is not meant to come here. -/
def step (s : Open) : Word → Except Stop Open
  | .token (.opening b) => .ok ⟨.start, (b, s.level) :: s.outer⟩
  | .token (.closing b) =>
    match s.outer with
    | [] => .error (.refused (.unopened b))
    | (opened, around) :: outer =>
      if opened = b then .ok ⟨around.push (bracketItems b s.level.finish), outer⟩
      else .error (.refused (.mismatched opened b))
  | .token .comma => .ok ⟨s.level.comma, s.outer⟩
  | .token .dot => .ok ⟨s.level.push [.dot], s.outer⟩
  | .token (.operator op) => .ok ⟨s.level.push [.operator op], s.outer⟩
  | .token (.number x) => .ok ⟨s.level.push [.expr (.number x)], s.outer⟩
  | .token (.name n) => .ok ⟨s.level.push [.expr (.name n)], s.outer⟩
  | .eof => .error .unreachable

/-- The group at the end of the input. No bracket may be open there. -/
def finish (s : Open) : Except Stop Group :=
  match s.outer with
  | [] => .ok s.level.finish
  | (opened, _) :: _ => .error (.refused (.unclosed opened))

/-- Reads words up to the end of the input. -/
def run (s : Open) : List Word → Except Stop Group
  | [] => s.finish
  | word :: rest =>
    if word.isEof then s.finish
    else do
      let s ← s.step word
      s.run rest

/-- Reading words comes through the brackets that are open in `s'`. -/
inductive Reaches : Open → List Word → Open → Prop
  | refl (s : Open) (words : List Word) : Reaches s words s
  | step {s next s' : Open} {word : Word} {rest : List Word} (hword : word.isEof = false)
      (hstep : s.step word = .ok next) (h : Reaches next rest s') : Reaches s (word :: rest) s'

end Open

/-- Groups words as if they stood in one pair of brackets. -/
def group (words : List Word) : Except Stop Group :=
  Open.run ⟨.start, []⟩ words

/-! ### Calls -/

/-- The segments among the items of a group with commas. Nothing but segments and commas is meant to
stand there. -/
def segments : List Item → Except Stop (List Expr)
  | [] => .ok []
  | .comma :: rest => segments rest
  | .expr e :: rest => do return e :: (← segments rest)
  | _ :: _ => .error .unreachable

/-- The arguments in the brackets of a call: one a segment, or, without a comma, none or one for the
whole group. -/
def arguments (g : Group) : Except Stop (List Expr) :=
  if g.hasComma then segments g.items
  else if g.items.isEmpty then .ok []
  else .ok [g.toExpr]

/-- Places a group after the items `passed`, which are in reverse: as the brackets of a call if a name
stands there, else as it is. -/
def placeGroup (g : Group) : List Item → Except Stop (List Item)
  | .expr (.name n) :: .dot :: .expr receiver :: passed => do
    return .expr (.call n (receiver :: (← arguments g))) :: passed
  | .expr (.name _) :: .dot :: item :: _ => .error (.notAValueBeforeDot item)
  | [.expr (.name _), .dot] => .error (.refused .nothingBeforeDot)
  | .expr (.name n) :: passed => do return .expr (.call n (← arguments g)) :: passed
  | passed => .ok (.expr g.toExpr :: passed)

/-- Folds the calls of the items that follow `passed`. -/
def foldCalls (passed : List Item) : List Item → Except Stop (List Item)
  | [] => .ok passed.reverse
  | .expr (.group items hasComma) :: rest =>
    match placeGroup ⟨items, hasComma⟩ passed with
    | .ok passed => foldCalls passed rest
    | .error e => .error e
  | item :: rest => foldCalls (item :: passed) rest

/-- The one equation for groups: they are placed among the items passed before, with a comma in them
or without. -/
theorem foldCalls_group (g : Group) (passed rest : List Item) :
    foldCalls passed (.expr g.toExpr :: rest) =
      match placeGroup g passed with
      | .ok passed => foldCalls passed rest
      | .error e => .error e :=
  rfl

/-! ### Operators -/

/-- The left operand of an operator that has no value there. -/
def implicitLeft : Operator → Option Expr
  | .plus | .minus => some (.number 0)
  | .power | .range => some .nothing
  | _ => none

/-- The right operand of an operator that has no value there. -/
def implicitRight : Operator → Option Expr
  | .range => some .nothing
  | _ => none

/-- The left operand of an operator of this tier and the items before that operand. `none` leaves
the operator to a later tier. -/
def leftOperand (tier : Tier) (op : Operator) :
    List Item → Except Stop (Option (Expr × List Item))
  | .expr left :: passed => .ok (if tier.prefixOnly then none else some (left, passed))
  | passed =>
    match implicitLeft op with
    | some left => .ok (some (left, passed))
    | none =>
      match passed with
      | [] => .error (.refused (.missingLeft op))
      | item :: _ => .error (.invalidLeft op item)

/-- An operation. A name on the left of `=` is the target of the assignment. -/
def operation (op : Operator) (left right : Expr) : Expr :=
  match op, left with
  | .assign, .name n => .operation .assign (.target n) right
  | op, left => .operation op left right

/-- Folds the operators of one tier in the items that follow `passed`. -/
def foldTier (tier : Tier) (passed : List Item) : List Item → Except Stop (List Item)
  | [] => .ok passed.reverse
  | .operator op :: rest =>
    if op ∈ tier.operators then
      match leftOperand tier op passed with
      | .error e => .error e
      | .ok none => foldTier tier (.operator op :: passed) rest
      | .ok (some (left, passed)) =>
        match rest with
        | .expr right :: rest => foldTier tier (.expr (operation op left right) :: passed) rest
        | [] =>
          match implicitRight op with
          | some right => .ok (.expr (operation op left right) :: passed).reverse
          | none => .error (.refused (.missingRight op))
        | item :: rest =>
          match implicitRight op with
          | some right => foldTier tier (.expr (operation op left right) :: passed) (item :: rest)
          | none => .error (.invalidRight op item)
    else foldTier tier (.operator op :: passed) rest
  | item :: rest => foldTier tier (item :: passed) rest

/-- Folds the operators of several tiers, one tier after the other. -/
def foldTiers : List Tier → List Item → Except Stop (List Item)
  | [], items => .ok items
  | tier :: more, items =>
    match foldTier tier [] items with
    | .ok items => foldTiers more items
    | .error e => .error e

/-- Folds the items of a group whose inner groups are folded already. With commas these are the
segments and the commas. -/
def foldItems (items : List Item) : Except Stop (List Item) :=
  match foldCalls [] items with
  | .ok items => foldTiers tiers items
  | .error e => .error e

/-! ### Groups -/

/-- Folds the groups among items. -/
def resolveItems : List Item → Except Stop (List Item)
  | [] => .ok []
  | .expr (.group items hasComma) :: rest => do
    let items ← foldItems (← resolveItems items)
    let rest ← resolveItems rest
    return .expr (.group items hasComma) :: rest
  | item :: rest => do
    let rest ← resolveItems rest
    return item :: rest

/-- Folds a group: the groups in it first, then its own items. -/
def resolve (g : Group) : Except Stop Group := do
  let items ← foldItems (← resolveItems g.items)
  return ⟨items, g.hasComma⟩

/-- A group among items is folded as it is folded alone, with a comma in it or without. -/
theorem resolveItems_group (g : Group) (rest : List Item) :
    resolveItems (.expr g.toExpr :: rest) = (do
      let g ← resolve g
      let rest ← resolveItems rest
      return .expr g.toExpr :: rest) := by
  rw [Group.toExpr, resolveItems]
  simp only [resolve, bind_assoc, pure_bind]
  rfl

/-- The expression that a folded group is, if it is a single one. -/
def Group.expression (g : Group) : Except Stop Expr :=
  if g.hasComma ∨ 1 < g.items.length then .error (.refused .unresolved)
  else
    match g.items.getLast? with
    | none => .error (.refused .empty)
    | some (.expr e) => .ok e
    | some _ => .error (.refused .unresolved)

/-- The group of a source. -/
def read (source : String) : Except Stop Group :=
  match tokenize source with
  | .ok tokens => group (tokens.map .token)
  | .error e => .error (.refused e)

/-- The expression of a source. -/
def parse (source : String) : Except Stop Expr := do
  let outer ← read source
  let resolved ← resolve outer
  resolved.expression

end Listed
end PixelCalc
