import PixelCalc.Builtin.Signature
import PixelCalc.Matrix.Basic
import PixelCalc.Syntax.Error

/-!
# Faults

What can go wrong while an expression is evaluated. A fault is an ordinary value: it is handed on
until it is the result of the whole expression, and shown by its message. Values and matrices appear
in a fault by their text.
-/

namespace PixelCalc

/-- The operands of an operator. -/
inductive Side where
  | left
  | right
deriving Repr, DecidableEq

/-- How messages call an operand. -/
def Side.ordinal : Side → String
  | left => "first"
  | right => "second"

/-- The axes of a matrix, as an index names them. -/
inductive Axis where
  | y
  | x
  | channel
deriving Repr, DecidableEq

/-- The parameter that selects on an axis. -/
def Axis.parameter : Axis → String
  | y => "y"
  | x => "x"
  | channel => "channel"

/-- The heading of the message that a selector lies outside an axis. -/
def Axis.heading : Axis → String
  | y | x => "Index Out Of Range"
  | channel => "Channel Out Of Range"

/-- Why an expression has no value. -/
inductive Fault where
  | syntaxError (e : SyntaxError)
  /-- A pair of brackets holds more than one value. -/
  | severalValues
  /-- A pair of brackets holds a sign instead of a value. -/
  | notAValue (item : Item)
  | emptyBracket
  | unknownValue (name : String)
  | unknownFunction (name : String)
  | operandType (op : Operator) (side : Side) (received : String)
  | operandShapes (op : Operator) (left right : String)
  /-- A prefix power has a negative operand. -/
  | negativePrefix (x : Float)
  | notAnIndex (side : Side) (x : Float)
  | argumentCount (f : Builtin) (given : Nat)
  | argumentType (f : Builtin) (parameter received expected : String)
  /-- A matrix of bounds differs in shape from the matrix to be held between them. -/
  | boundShape (parameter bound value : String)
  | boundsInverted (lower upper : Float)
  /-- One of several matrices differs in shape from those before it. -/
  | unequalShapes (f : Builtin) (value before : String)
  | noScale (mat : String) (greatest target : Float)
  | noChannel (f : Builtin) (index : Float) (mat : String) (channels : Nat)
  | argumentSize (f : Builtin) (parameter received reference : String) (rows cols : Nat)
  | tooManyChannels (total : Nat)
  | selectorOutside (axis : Axis) (received : String) (len : Nat)
  /-- Three indices select an entry that the matrix does not have. -/
  | noEntry
  | badMatrix (f : Builtin) (e : MatrixError)
  /-- A matrix was built against an assertion. -/
  | broken (a : Assertion)
  /-- A message that was given from outside. -/
  | stated (text : String)

namespace Fault

/-- The overloads that an operator accepts. -/
def operatorOverloads (op : Operator) : String :=
  match op with
  | .plus | .minus | .times | .divide | .remainder => s!"[Number/Mat] {op.symbol} [Number/Mat]"
  | .power => "[Number] ^ [Number], [Mat] ^ [Number] or ^[Number]"
  | .range => "[Number/Nothing] .. [Number/Nothing]"
  | .equal | .notEqual | .greater | .greaterEqual | .less | .lessEqual =>
    s!"[Number] {op.symbol} [Number] -> [Boolean], [Mat] {op.symbol} [Mat] -> [Mask Mat] or " ++
      s!"[Mat] {op.symbol} [Number] -> [Mask Mat]"
  | .assign => "[VariableNameReference] = [Any]"

/-- The end of the message that an operand does not fit the overloads. -/
def operandMismatch : Operator → String
  | .assign => "which is not [VariableNameReference]."
  | _ => "which is neither of those."

/-- A message about a call of a built-in function. -/
def ofFunction (heading : String) (f : Builtin) (detail : String) : String :=
  s!"{heading} Error: Function {f.describe}, {detail}"

/-- The message of a fault. -/
def message : Fault → String
  | syntaxError e => e.message
  | severalValues => "Syntax Error: The content inside the bracket is more than one value."
  | notAValue item => s!"Syntax Error: '{item.text}' is not a value"
  | emptyBracket => "Syntax Error: The bracket is empty"
  | unknownValue name => s!"The name '{name}' is not a valid value"
  | unknownFunction name => s!"The name '{name}' is not a valid function"
  | operandType op side received =>
    s!"Type Error: Operator '{op.label}' accepts {operatorOverloads op}. However, the " ++
      s!"{side.ordinal} argument received is '{received}' {operandMismatch op}"
  | operandShapes op left right =>
    s!"Shape Error: Operator '{op.label}' (Overload [Mat] {op.symbol} [Mat]) the first item " ++
      s!"'{left}' and the second item '{right}' should have the identical size and channel."
  | negativePrefix x =>
    s!"Out Of Range Error: Operator '{Operator.power.label}' used as a prefix (^n means -n) " ++
      s!"expects a non-negative number, but got '{Binary64.plainText x}'."
  | notAnIndex side x =>
    s!"Out Of Range Error: Operator '{Operator.range.label}', the {side.ordinal} argument " ++
      s!"'{Binary64.plainText x}' is not a valid index."
  | argumentCount f given =>
    s!"Parameter Error: Function {f.describe} accepts {f.arity} parameter(s) but {given} " ++
      "was/were given"
  | argumentType f parameter received expected =>
    ofFunction "Type" f s!"{parameter} '{received}' should be {expected}"
  | boundShape parameter bound value =>
    ofFunction "Shape" .clamp
      s!"{parameter} '{bound}' should have the same size and channels as value '{value}'"
  | boundsInverted lower upper =>
    ofFunction "Out Of Range" .clamp
      (s!"lowerBound '{Binary64.plainText lower}' should not be greater than " ++
        s!"upperBound '{Binary64.plainText upper}'")
  | unequalShapes f value before =>
    ofFunction "Shape" f s!"value '{value}' should have the same size and channels as '{before}'"
  | noScale mat greatest target =>
    ofFunction "Math" .normalizeTo
      (s!"mat '{mat}' has a maximum of {Binary64.plainText greatest}, which cannot be scaled to " ++
        Binary64.plainText target)
  | noChannel f index mat channels =>
    ofFunction "Channel Out Of Range" f
      (s!"channel '{Binary64.plainText index}' is out of range for mat '{mat}' which has " ++
        s!"{channels} channel(s) (Note: The first channel starts at channel 0, not 1)")
  | argumentSize f parameter received reference rows cols =>
    ofFunction "Shape" f
      s!"{parameter} '{received}' should have the same size as '{reference}' ({rows}x{cols})"
  | tooManyChannels total =>
    ofFunction "Channel Out Of Range" .combineChannels
      s!"the combined matrix would have {total} channels, but at most 4 are supported"
  | selectorOutside axis received len =>
    ofFunction axis.heading .subMat
      (s!"{axis.parameter} '{received}' is out of range (valid indices are -{len} to " ++
        s!"{len - 1})")
  | noEntry => ofFunction Axis.y.heading .subMat "element is outside the matrix"
  | badMatrix f e => ofFunction "Matrix" f e.message
  | broken a => a.message
  | stated text => text

end Fault

end PixelCalc
