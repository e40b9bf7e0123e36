import PixelCalc.CommandLine.Arguments
import PixelCalc.Exchange.Encoding
import PixelCalc.Manual
import PixelCalc.Session

/-!
# Running commands

- `Command.run`: what a command writes and the status it ends with, given the standard input.
- `CommandLine.run`: the same from the arguments; arguments that are no command end with status 2.
-/

namespace PixelCalc

/-- What a run of the program leaves behind. -/
structure Run where
  status : Nat
  output : String
  errors : String
deriving Repr, DecidableEq

namespace Run

/-- A run that writes its output. -/
def success (output : String) : Run :=
  ⟨0, output, ""⟩

/-- A run that ends with a failure, after what it has written. -/
def failed (output : String) (e : Failure) : Run :=
  ⟨1, output, e.message ++ "\n"⟩

/-- The arguments are no command. -/
def usage : Run :=
  ⟨2, "", ""⟩

end Run

namespace Command

/-- The command reads the standard input. A request with variables of its own does not, nor does one
about syntax only. -/
def readsInput : Command → Bool
  | eval request _ _ => request.input?.isNone && !request.syntaxOnly
  | repl .. => true
  | docs | doc _ => false

/-- The command evaluates the lines of the standard input. -/
def isSession : Command → Bool
  | repl .. => true
  | _ => false

/-- The request with the standard input as its variables, unless the input is blank. -/
def withInput (request : Request) (input : ByteArray) : Except Failure Request :=
  match String.fromUTF8? input with
  | none => .error .undecodable
  | some text =>
    .ok (if text.toList.all Text.isBlank then request else { request with input? := some text })

/-- A value as a request shows it. -/
def valueText (json pretty : Bool) (v : Value) : String :=
  match json, pretty with
  | true, true => v.toJson.indented
  | true, false => v.toJson.compact
  | false, true => v.pretty
  | false, false => v.text

/-- Runs a command on the standard input. -/
def run (input : ByteArray) : Command → Run
  | eval request json pretty =>
    let answer := do
      let request ←
        if (eval request json pretty).readsInput then withInput request input else .ok request
      request.answer
    match answer with
    | .ok .validSyntax => .success "Syntax is valid\n"
    | .ok (.value v) => .success (valueText json pretty v ++ "\n")
    | .error e => .failed "" e
  | repl input? pretty =>
    match input?.elim (Environment.empty, none) Environment.empty.bindInput with
    | (_, some e) => .failed "" e
    | (env, none) =>
      let session := Session.ofBytes pretty env input
      match session.failure? with
      | none => .success session.output
      | some e => .failed session.output e
  | docs => .success Manual.overview
  | doc category =>
    match Manual.page category with
    | .ok page => .success page
    | .error e => .failed "" e

end Command

/-- Runs the program with its arguments on the standard input. -/
def CommandLine.run (args : List String) (input : ByteArray) : Run :=
  match Command.ofArguments? args with
  | some command => command.run input
  | none => .usage

end PixelCalc
