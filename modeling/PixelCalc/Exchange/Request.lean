import PixelCalc.Evaluation
import PixelCalc.Exchange.Binding

/-!
# Requests

A request asks for the value of one expression in an environment of its own, or only whether the
expression can be read. The input is bound first and the bindings after it, so that a binding wins.
-/

namespace PixelCalc

/-- One expression with its variables. -/
structure Request where
  expression : String
  /-- Variables as `NAME=VALUE`. -/
  bindings : List String
  /-- Variables as the fields of a JSON object. -/
  input? : Option String
  /-- Only whether the expression can be read is asked. -/
  syntaxOnly : Bool

/-- What a request that does not fail gives. -/
inductive Answer where
  | validSyntax
  | value (v : Value)

namespace Request

/-- Binds `NAME=VALUE` bindings in order. -/
def bindAll (env : Environment) : List String → Except Failure Environment
  | [] => .ok env
  | binding :: rest => do
    let (name, v) ← Binding.parse binding
    bindAll (env.bind name v) rest

/-- The environment with the variables of a request. -/
def environment (r : Request) : Except Failure Environment :=
  match r.input? with
  | none => bindAll .empty r.bindings
  | some input =>
    match Environment.empty.bindInput input with
    | (env, none) => bindAll env r.bindings
    | (_, some e) => .error e

/-- The answer to a request. A result that is a fault is a failure. -/
def answer (r : Request) : Except Failure Answer :=
  if r.syntaxOnly then
    match parse r.expression with
    | .ok _ => .ok .validSyntax
    | .error e => .error (.syntaxError e)
  else do
    let env ← r.environment
    match (evaluate env r.expression).1 with
    | .error fault => throw (.evaluation fault)
    | v => return .value v

end Request

end PixelCalc
