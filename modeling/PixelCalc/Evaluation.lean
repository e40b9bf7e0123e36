import PixelCalc.Environment
import PixelCalc.Syntax.Folding

/-!
# Evaluation

Operands and arguments are evaluated from left to right, each in the environment that the one before
it has left, and all of them before the operator or the function is applied. A fault does not stop
the evaluation of what follows it.

- `Expr.eval`: the value of an expression and the environment after it.
- `evaluate`: the same for a source; a syntax error is a fault like any other.
-/

namespace PixelCalc

mutual

/-- The value of an expression and the environment after it. A pair of brackets has a value when it
holds exactly one expression. -/
def Expr.eval (env : Environment) : Expr → Value × Environment
  | .number x => (.number x, env)
  | .nothing => (.nothing, env)
  | .name n => (env.value n, env)
  | .target n => (.reference n, env)
  | .group [] [] => (.error .emptyBracket, env)
  | .group [item] [] => item.eval env
  | .group _ _ => (.error .severalValues, env)
  | .operation op left right =>
    let l := left.eval env
    let r := right.eval l.2
    r.2.operate op l.1 r.1
  | .call n arguments =>
    let args := evalAll env arguments
    (args.2.call n args.1, args.2)

/-- The value of the only item between brackets. -/
def Item.eval (env : Environment) : Item → Value × Environment
  | .expr e => e.eval env
  | item => (.error (.notAValue item), env)

/-- The values of arguments and the environment after the last one. -/
def evalAll (env : Environment) : List Expr → List Value × Environment
  | [] => ([], env)
  | e :: rest =>
    let v := e.eval env
    let vs := evalAll v.2 rest
    (v.1 :: vs.1, vs.2)

end

/-- The value of a source and the environment after it. -/
def evaluate (env : Environment) (source : String) : Value × Environment :=
  match parse source with
  | .ok e => e.eval env
  | .error e => (.error (.syntaxError e), env)

end PixelCalc
