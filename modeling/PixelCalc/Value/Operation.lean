import PixelCalc.Value.Basic

/-!
# Operators on values

- `arithmetic`, `power`, `range`, `comparison`: the families of operators, each with its overloads
  on numbers and matrices.
- `Operator.compute`: the value of an operation. A fault on the left is the result, then a fault on
  the right.
-/

namespace PixelCalc
namespace Operation

/-- The value of a construction without a check. -/
def ofConstruction : Except Assertion Matrix → Value
  | .ok m => .matrix m
  | .error a => .error (.broken a)

/-- Arithmetic on numbers, at every entry of a matrix, and on the entries of two matrices of one
shape. -/
def arithmetic (op : Operator) (f : Float → Float → Float) : Value → Value → Value
  | .number a, .number b => .number (f a b)
  | .number a, .matrix m => ofConstruction (m.map fun b => f a b)
  | .matrix m, .number b => ofConstruction (m.map fun a => f a b)
  | .matrix a, .matrix b =>
    if a.sameShape b then ofConstruction (a.zipWith f b)
    else .error (.operandShapes op a.text b.text)
  | .number _, right | .matrix _, right => .error (.operandType op .right right.text)
  | left, _ => .error (.operandType op .left left.text)

/-- Powers of numbers and of the entries of a matrix. As a prefix, `^n` is `-n` and `n` must not be
negative. -/
def power : Value → Value → Value
  | .number a, .number b => .number (a.pow b)
  | .matrix m, .number b => ofConstruction (m.map fun a => a.pow b)
  | .nothing, .number b => if 0 ≤ b then .number (-b) else .error (.negativePrefix b)
  | .number _, right | .matrix _, right | .nothing, right =>
    .error (.operandType .power .right right.text)
  | left, _ => .error (.operandType .power .left left.text)

/-- The bound that an operand of a range gives. -/
def rangeBound (side : Side) : Value → Except Fault RangeBound
  | .nothing => .ok .unbounded
  | .number x =>
    match RangeBound.ofNumber? x with
    | some bound => .ok bound
    | none => .error (.notAnIndex side x)
  | v => .error (.operandType .range side v.text)

/-- The range between two bounds. -/
def range (left right : Value) : Value :=
  match rangeBound .left left with
  | .error fault => .error fault
  | .ok start =>
    match rangeBound .right right with
    | .error fault => .error fault
    | .ok stop => .range ⟨start, stop⟩

/-- Comparison of numbers; of a matrix with a number or with a matrix of its shape it is a mask. -/
def comparison (op : Operator) (test : Float → Float → Bool) : Value → Value → Value
  | .number a, .number b => .boolean (test a b)
  | .matrix m, .number b => .matrix (m.maskWhere fun a => test a b)
  | .matrix a, .matrix b =>
    if a.sameShape b then ofConstruction (a.maskZip test b)
    else .error (.operandShapes op a.text b.text)
  | .number _, right | .matrix _, right => .error (.operandType op .right right.text)
  | left, _ => .error (.operandType op .left left.text)

/-- The value of an assignment is the value assigned. -/
def assignment : Value → Value → Value
  | .reference _, right => right
  | left, _ => .error (.operandType .assign .left left.text)

end Operation

open Operation in
/-- The value of an operation whose operands are no faults. -/
def Operator.onValues (op : Operator) (left right : Value) : Value :=
  match op with
  | plus => arithmetic plus (fun a b => a + b) left right
  | minus => arithmetic minus (fun a b => a - b) left right
  | times => arithmetic times (fun a b => a * b) left right
  | divide => arithmetic divide (fun a b => a / b) left right
  | remainder => arithmetic remainder Binary64.remainder left right
  | power => Operation.power left right
  | range => Operation.range left right
  | equal => comparison equal (fun a b => a == b) left right
  | notEqual => comparison notEqual (fun a b => a != b) left right
  | greater => comparison greater (fun a b => b < a) left right
  | greaterEqual => comparison greaterEqual (fun a b => b ≤ a) left right
  | less => comparison less (fun a b => a < b) left right
  | lessEqual => comparison lessEqual (fun a b => a ≤ b) left right
  | assign => assignment left right

/-- The value of an operation: the first fault among its operands, or what the operator makes of
them. -/
def Operator.compute (op : Operator) (left right : Value) : Value :=
  match left, right with
  | .error fault, _ => .error fault
  | _, .error fault => .error fault
  | left, right => op.onValues left right

@[simp] theorem Operator.compute_error_left (op : Operator) (fault : Fault) (right : Value) :
    op.compute (.error fault) right = .error fault := by
  cases right <;> rfl

end PixelCalc
