import PixelCalc.Environment
import PixelCalc.Exchange.Decoding
import PixelCalc.Json.Reading
import PixelCalc.Text.Alphabetic
import PixelCalc.Text.Blank

/-!
# Binding variables from outside

- `Binding.parse`: a binding `NAME=VALUE`, blank characters around its parts being dropped.
- `Environment.bindInput`: the fields of a JSON object as variables.

A name is made of letters, as names in expressions are; a value is a JSON document.
-/

namespace PixelCalc

/-- A name that expressions can use. -/
def isName (name : String) : Bool :=
  !name.isEmpty && name.toList.all Text.isAlphabetic

namespace Binding

/-- The name of a binding and the text after its `=`. -/
def split? (binding : List Char) : Option (List Char × List Char) :=
  let start := Text.trimStart binding
  let name := start.takeWhile Text.isAlphabetic
  match name, Text.trimStart (start.dropWhile Text.isAlphabetic) with
  | _ :: _, '=' :: rest => some (name, rest)
  | _, _ => none

/-- The document in the text after the `=`. It stands in one line, and only line ends may not be all
that there is. -/
def document? (rest : List Char) : Option (List Char) :=
  let document := Text.trim rest
  if '\n' ∈ document ∨ rest.all (fun c => c = '\n') then none else some document

/-- The name and the value of a binding. -/
def parse (binding : String) : Except Failure (String × Value) :=
  match split? binding.toList with
  | none => .error (.badBinding binding)
  | some (name, rest) =>
    match document? rest with
    | none => .error (.badBinding binding)
    | some document =>
      match Json.read? (String.ofList document) with
      | none => .error .notJson
      | some j => do return (String.ofList name, ← j.toValue)

end Binding

namespace Environment

/-- Binds the fields of an object in order, up to the first that is no variable. -/
def bindFields (env : Environment) : List (String × Json) → Environment × Option Failure
  | [] => (env, none)
  | (name, j) :: rest =>
    if isName name then
      match j.toValue with
      | .ok v => bindFields (env.bind name v) rest
      | .error e => (env, some e)
    else
      (env, some (.badBinding name))

/-- Binds the fields of the JSON object that a text is. What comes before a failure stays bound. -/
def bindInput (env : Environment) (input : String) : Environment × Option Failure :=
  match Json.read? input with
  | none => (env, some .notJson)
  | some (.object fields) => env.bindFields fields
  | some _ => (env, some (.badValue .notVariables))

end Environment

end PixelCalc
