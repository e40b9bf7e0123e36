import PixelCalc.Proofs.Sequencing
import PixelCalc.Proofs.Syntax.OneLine
import PixelCalc.Value.Operation

/-!
# Values of one line

Values are written in one line, except that a fault and the target of an assignment are written by a
message and a name from outside. A message quotes values, so operators make values of one line of
such values.

- `Fault.quoted`: what a fault quotes; `Fault.oneLine_message` says that nothing else in its message
  can break the line.
- `Value.OneLine`: what makes the text of a value one line, which `Value.oneLine_text_iff` says.
- `Operator.oneLine_compute`: operators keep it.
-/

namespace PixelCalc

open Text

/-! ### Texts of what messages name -/

/-- Fixed texts that messages are made of contain no line feed. This one and those that follow are
evaluated case by case. -/
@[simp] theorem Side.oneLine_ordinal (side : Side) : OneLine side.ordinal.toList := by
  cases side <;> simp [ordinal]

@[simp] theorem Axis.oneLine_parameter (axis : Axis) : OneLine axis.parameter.toList := by
  cases axis <;> simp [parameter]

@[simp] theorem Axis.oneLine_heading (axis : Axis) : OneLine axis.heading.toList := by
  cases axis <;> simp [heading]

@[simp] theorem MatrixKind.oneLine_name (kind : MatrixKind) : OneLine kind.name.toList := by
  cases kind <;> simp [name]

/-- A matrix is described by its kind and its sizes, never by its entries. -/
@[simp] theorem Matrix.oneLine_text (m : Matrix) : OneLine m.text.toList := by
  simp [text]

/-- The message of a matrix error is a fixed text, with sizes in it. -/
@[simp] theorem MatrixError.oneLine_message (e : MatrixError) : OneLine e.message.toList := by
  cases e <;> unfold message <;> simp [-String.reduceToList] <;> and_intros <;>
    exact oneLine_literal _ rfl

@[simp] theorem Assertion.oneLine_message (a : Assertion) : OneLine a.message.toList := by
  cases a <;> exact oneLine_literal _ rfl

/-- A bound is written as a number, with a mark if it counts from the end. -/
theorem RangeBound.oneLine_text (b : RangeBound) : OneLine b.text.toList := by
  cases b <;> simp [text]

@[simp] theorem IndexRange.oneLine_text (r : IndexRange) : OneLine r.text.toList := by
  simp [text, RangeBound.oneLine_text]

@[simp] theorem Builtin.oneLine_describe (f : Builtin) : OneLine f.describe.toList := by
  simp only [describe, String.toList_intercalate]
  refine (oneLine_intercalate_iff (by simp)).mpr (List.forall_mem_map.mpr ?_)
  cases f <;> simp [overloads, -String.reduceToList] <;> and_intros <;> exact oneLine_literal _ rfl

@[simp] theorem Builtin.oneLine_arity (f : Builtin) : OneLine f.arity.toList := by
  cases f <;> simp [arity]

namespace Fault

/-- The overloads of an operator are listed on one line. -/
@[simp] theorem oneLine_operatorOverloads (op : Operator) :
    OneLine (operatorOverloads op).toList := by
  unfold operatorOverloads
  split <;> (try simp [-String.reduceToList]) <;> and_intros <;> exact oneLine_literal _ rfl

@[simp] theorem oneLine_operandMismatch (op : Operator) :
    OneLine (operandMismatch op).toList := by
  unfold operandMismatch
  split <;> exact oneLine_literal _ rfl

/-- A message about a function adds the function's signature to its heading and its detail. -/
@[simp] theorem oneLine_ofFunction_iff {heading detail : String} {f : Builtin} :
    OneLine (ofFunction heading f detail).toList ↔
      OneLine heading.toList ∧ OneLine detail.toList := by
  simp [ofFunction]

/-! ### Faults -/

/-- The texts that a fault quotes. -/
def quoted : Fault → List (List Char)
  | syntaxError e => e.quoted
  | notAValue item => [item.text.toList]
  | unknownValue name | unknownFunction name => [name.toList]
  | operandType _ _ received => [received.toList]
  | operandShapes _ left right => [left.toList, right.toList]
  | argumentType _ parameter received expected =>
    [parameter.toList, received.toList, expected.toList]
  | boundShape parameter bound value => [parameter.toList, bound.toList, value.toList]
  | unequalShapes _ value before => [value.toList, before.toList]
  | noScale mat _ _ | noChannel _ _ mat _ => [mat.toList]
  | argumentSize _ parameter received reference _ _ =>
    [parameter.toList, received.toList, reference.toList]
  | selectorOutside _ received _ => [received.toList]
  | stated text => [text.toList]
  | _ => []

/-- What a fault quotes is one line. -/
def Quiet (fault : Fault) : Prop :=
  ∀ t ∈ fault.quoted, OneLine t

/-- Many faults quote nothing. -/
theorem quiet_of_quoted {fault : Fault} (h : fault.quoted = []) : fault.Quiet := by
  rw [Quiet, h]
  exact List.forall_mem_nil _

/-- A message is one line if all that it quotes is. -/
theorem oneLine_message {fault : Fault} (h : fault.Quiet) : OneLine fault.message.toList := by
  cases fault with
  | syntaxError e => exact SyntaxError.oneLine_message h
  | _ =>
    unfold message
    simp_all [Quiet, quoted, -String.reduceToList] <;> and_intros <;> exact oneLine_literal _ rfl

end Fault

/-! ### Values -/

namespace Value

/-- The message of a fault and the name of a target are one line. -/
def OneLine : Value → Prop
  | error fault => Text.OneLine fault.message.toList
  | reference name => Text.OneLine name.toList
  | _ => True

variable {v : Value}

/-- The text of a value can break a line only through the message of an error or the name of a
reference. Everything else is numbers and fixed texts. -/
theorem oneLine_text_iff : Text.OneLine v.text.toList ↔ v.OneLine := by
  cases v with
  | boolean b => cases b <;> simp [text, OneLine]
  | error fault => exact Iff.rfl
  | _ => simp [text, OneLine]

/-- A fault that quotes one-line texts is a one-line value. -/
theorem oneLine_error {fault : Fault} (h : fault.Quiet) : (error fault).OneLine :=
  Fault.oneLine_message h

end Value

namespace Operation

variable {op : Operator} {left right v : Value}

theorem quiet_operandType (op : Operator) (side : Side) (h : v.OneLine) :
    (Fault.operandType op side v.text).Quiet :=
  List.forall_mem_singleton.mpr (Value.oneLine_text_iff.mpr h)

theorem oneLine_operandType (op : Operator) (side : Side) (h : v.OneLine) :
    (Value.error (.operandType op side v.text)).OneLine :=
  Value.oneLine_error (quiet_operandType op side h)

/-- The error of two shapes that differ quotes both matrices. -/
theorem oneLine_operandShapes (op : Operator) (a b : Matrix) :
    (Value.error (.operandShapes op a.text b.text)).OneLine :=
  Value.oneLine_error (by simp [Fault.Quiet, Fault.quoted])

/-- A matrix under construction becomes a matrix or a broken assertion with a fixed text. -/
theorem oneLine_ofConstruction (x : Except Assertion Matrix) : (ofConstruction x).OneLine := by
  cases x with
  | ok m => trivial
  | error a => exact a.oneLine_message

/-- Arithmetic speaks on one line if its operands do. -/
theorem oneLine_arithmetic {f : Float → Float → Float} (hl : left.OneLine) (hr : right.OneLine) :
    (arithmetic op f left right).OneLine := by
  unfold arithmetic
  -- two numbers, a number with a matrix, two matrices, and then the operand that has another type
  split
  · trivial
  · exact oneLine_ofConstruction _
  · exact oneLine_ofConstruction _
  · split
    · exact oneLine_ofConstruction _
    · exact oneLine_operandShapes op _ _
  · exact oneLine_operandType op .right hr
  · exact oneLine_operandType op .right hr
  · exact oneLine_operandType op .left hl

/-- A power speaks on one line if its operands do. -/
theorem oneLine_power (hl : left.OneLine) (hr : right.OneLine) : (power left right).OneLine := by
  unfold power
  split
  · trivial
  · exact oneLine_ofConstruction _
  · split
    · trivial
    · exact Value.oneLine_error (Fault.quiet_of_quoted rfl)
  · exact oneLine_operandType .power .right hr
  · exact oneLine_operandType .power .right hr
  · exact oneLine_operandType .power .right hr
  · exact oneLine_operandType .power .left hl

/-- A value that can be no bound is quoted. -/
theorem yields_rangeBound (side : Side) (h : v.OneLine) :
    Yields (fun _ => True) Fault.Quiet (rangeBound side v) := by
  unfold rangeBound
  split
  · trivial
  · split
    · trivial
    · exact Fault.quiet_of_quoted rfl
  · exact quiet_operandType .range side h

/-- A range speaks on one line if its operands do. -/
theorem oneLine_range (hl : left.OneLine) (hr : right.OneLine) : (range left right).OneLine := by
  unfold range
  split
  · rename_i hstart
    exact Value.oneLine_error ((yields_rangeBound .left hl).of_error hstart)
  · split
    · rename_i hstop
      exact Value.oneLine_error ((yields_rangeBound .right hr).of_error hstop)
    · trivial

/-- A comparison speaks on one line if its operands do. -/
theorem oneLine_comparison {test : Float → Float → Bool} (hl : left.OneLine) (hr : right.OneLine) :
    (comparison op test left right).OneLine := by
  unfold comparison
  split
  · trivial
  · trivial
  · split
    · exact oneLine_ofConstruction _
    · exact oneLine_operandShapes op _ _
  · exact oneLine_operandType op .right hr
  · exact oneLine_operandType op .right hr
  · exact oneLine_operandType op .left hl

/-- An assignment gives its right operand back, or says what it cannot assign to. -/
theorem oneLine_assignment (hl : left.OneLine) (hr : right.OneLine) :
    (assignment left right).OneLine := by
  unfold assignment
  split
  · exact hr
  · exact oneLine_operandType .assign .left hl

end Operation

open Operation in
/-- The value of an operation is one line, whatever its operands are. -/
theorem Operator.oneLine_compute (op : Operator) {left right : Value} (hl : left.OneLine)
    (hr : right.OneLine) : (op.compute left right).OneLine := by
  unfold compute
  split
  · exact hl
  · exact hr
  · cases op with
    | plus | minus | times | divide | remainder => exact oneLine_arithmetic hl hr
    | power => exact oneLine_power hl hr
    | range => exact oneLine_range hl hr
    | equal | notEqual | greater | greaterEqual | less | lessEqual =>
      exact oneLine_comparison hl hr
    | assign => exact oneLine_assignment hl hr

end PixelCalc
