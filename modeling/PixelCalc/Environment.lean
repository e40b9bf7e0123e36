import PixelCalc.Builtin.Library
import PixelCalc.Table
import PixelCalc.Value.Operation

/-!
# Environments

An environment binds variables to values and names to functions of one's own.

- `Environment.value`: the value of a name; a name without one is a fault.
- `Environment.call`: a call; built-in functions come first and ignore case, registered ones are
  found by their exact name.
- `Environment.operate`: an operation; an assignment is the only one with an effect.
-/

namespace PixelCalc

/-- The bindings that an expression is evaluated in. -/
structure Environment where
  values : Table Value
  functions : Table (List Value → Value)

namespace Environment

/-- The environment without any binding. -/
def empty : Environment :=
  ⟨[], []⟩

/-- The value bound to a name. -/
def find? (env : Environment) (name : String) : Option Value :=
  env.values.find? name

/-- The value of a name in an expression. -/
def value (env : Environment) (name : String) : Value :=
  (env.find? name).getD (.error (.unknownValue name))

/-- Binds a name to a value. -/
def bind (env : Environment) (name : String) (v : Value) : Environment :=
  { env with values := env.values.insert name v }

/-- Takes the value of a name away. -/
def unbind (env : Environment) (name : String) : Environment :=
  { env with values := env.values.erase name }

/-- The names that have values, in ascending order. -/
def names (env : Environment) : List String :=
  env.values.names

/-- Adds a function under a name. -/
def register (env : Environment) (name : String) (f : List Value → Value) : Environment :=
  { env with functions := env.functions.insert name f }

/-- The function that a name calls. -/
def function? (env : Environment) (name : String) : Option (List Value → Value) :=
  match Builtin.ofName? name with
  | some f => some f.invoke
  | none => env.functions.find? name

/-- The value of a call. -/
def call (env : Environment) (name : String) (args : List Value) : Value :=
  match env.function? name with
  | some f => f args
  | none => .error (.unknownFunction name)

/-- The effect of an operation: assigning to a name binds it, unless the value is a fault. -/
def assigned (env : Environment) (op : Operator) (left right : Value) : Environment :=
  match op, left, right with
  | .assign, .reference _, .error _ => env
  | .assign, .reference name, v => env.bind name v
  | _, _, _ => env

/-- An operation: its value and the environment after it. -/
def operate (env : Environment) (op : Operator) (left right : Value) : Value × Environment :=
  (op.compute left right, env.assigned op left right)

/-! ### What a binding changes -/

/-- A bound name has the value that was bound last. -/
@[simp] theorem find?_bind_self (env : Environment) (name : String) (v : Value) :
    (env.bind name v).find? name = some v :=
  Table.find?_insert_self name v env.values

/-- A binding changes no other name. -/
theorem find?_bind_other (env : Environment) {name other : String} (h : other ≠ name) (v : Value) :
    (env.bind name v).find? other = env.find? other :=
  Table.find?_insert_other h v env.values

/-- A variable after a binding is the one bound, with the new value, or has the value it had. -/
theorem find?_bind_cases {env : Environment} {name other : String} {v w : Value}
    (h : (env.bind name v).find? other = some w) :
    other = name ∧ v = w ∨ env.find? other = some w := by
  by_cases hname : other = name
  · rw [hname, find?_bind_self] at h
    exact .inl ⟨hname, Option.some.inj h⟩
  · rw [find?_bind_other env hname] at h
    exact .inr h

/-- Variables and functions are kept apart. -/
@[simp] theorem functions_bind (env : Environment) (name : String) (v : Value) :
    (env.bind name v).functions = env.functions :=
  rfl

end Environment

end PixelCalc
