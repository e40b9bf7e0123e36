import PixelCalc.Syntax.Error

/-!
# Nesting

The flat list of tokens becomes nested groups. Reading goes once through the tokens with a stack of
the brackets that are still open, each with the level that it interrupts.

- `Level`: what a pair of brackets holds so far.
- `nest`: the group of a list of tokens, or the first bracket that does not fit.
- An index `x[a, b]` is nested as the call `x.SubMat(a, b)`.
-/

namespace PixelCalc

/-- The function that an index calls. -/
def indexFunction : String :=
  "SubMat"

namespace Nesting

/-- The contents of a pair of brackets up to the token being read: the segments that a comma has
ended, and the items after the last comma. -/
structure Level where
  ended : List (List Item)
  current : List Item

/-- A level before its first token. -/
def Level.start : Level :=
  ⟨[], []⟩

/-- Adds items to the current segment. -/
def Level.push (level : Level) (items : List Item) : Level :=
  ⟨level.ended, level.current ++ items⟩

/-- Ends the current segment. -/
def Level.comma (level : Level) : Level :=
  ⟨level.ended ++ [level.current], []⟩

/-- The group that a level holds at its end. -/
def Level.close (level : Level) : Group :=
  match level.ended with
  | [] => ⟨level.current, []⟩
  | first :: more => ⟨first, more ++ [level.current]⟩

theorem Level.segments_close (level : Level) :
    level.close.segments = level.ended ++ [level.current] := by
  obtain ⟨ended, current⟩ := level
  cases ended <;> rfl

/-- The items that a closed pair of brackets leaves in the level around it. -/
def bracketItems (b : Bracket) (contents : Group) : List Item :=
  match b with
  | .round => [.expr contents.toExpr]
  | .square => [.dot, .expr (.name indexFunction), .expr contents.toExpr]

/-- Nests the tokens that follow `level`. `outer` holds the open brackets, the innermost first, each
with the level in which it was opened. -/
def nestFrom (level : Level) (outer : List (Bracket × Level)) :
    List Token → Except SyntaxError Group
  | [] =>
    match outer with
    | [] => .ok level.close
    | (opened, _) :: _ => .error (.unclosed opened)
  | .opening b :: rest => nestFrom .start ((b, level) :: outer) rest
  | .closing b :: rest =>
    match outer with
    | [] => .error (.unopened b)
    | (opened, around) :: outer =>
      if opened = b then nestFrom (around.push (bracketItems b level.close)) outer rest
      else .error (.mismatched opened b)
  | .comma :: rest => nestFrom level.comma outer rest
  | .dot :: rest => nestFrom (level.push [.dot]) outer rest
  | .operator op :: rest => nestFrom (level.push [.operator op]) outer rest
  | .number x :: rest => nestFrom (level.push [.expr (.number x)]) outer rest
  | .name n :: rest => nestFrom (level.push [.expr (.name n)]) outer rest

end Nesting

/-- Nests tokens as if they stood in one pair of brackets. -/
def nest (tokens : List Token) : Except SyntaxError Group :=
  Nesting.nestFrom .start [] tokens

end PixelCalc
