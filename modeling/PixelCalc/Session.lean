import PixelCalc.Evaluation
import PixelCalc.Exchange.Failure
import PixelCalc.Text.Blank

/-!
# Sessions

A session evaluates its input line by line in one environment, so that later lines see the
assignments of earlier ones. Every line that is not blank gives one result; a fault is a result like
any other.

- `Session.run`: a session over lines.
- `Session.ofText`, `Session.ofBytes`: a session over a text, and over bytes of which a line may be
  no text.
-/

namespace PixelCalc
namespace Session

/-- What a session has done. -/
structure Outcome where
  environment : Environment
  /-- The results in order. -/
  results : List String
  /-- Why the session has ended before the end of its input. -/
  failure? : Option Failure

/-- The results, each followed by a line end. -/
def Outcome.output (o : Outcome) : String :=
  String.join (o.results.map fun result => result ++ "\n")

/-- A result as it is shown. -/
def display (pretty : Bool) (v : Value) : String :=
  if pretty then v.pretty else v.text

/-- Evaluates lines in order; `none` stands for a line that is no text, which ends the session. -/
def run (pretty : Bool) (env : Environment) : List (Option (List Char)) → Outcome
  | [] => ⟨env, [], none⟩
  | none :: _ => ⟨env, [], some .undecodable⟩
  | some line :: rest =>
    match Text.trim line with
    | [] => run pretty env rest
    | source =>
      let v := evaluate env (String.ofList source)
      let more := run pretty v.2 rest
      { more with results := display pretty v.1 :: more.results }

/-- The parts of a list between separators, of which there is always at least one. -/
def pieces {α : Type} [DecidableEq α] (separator : α) : List α → List (List α)
  | [] => [[]]
  | x :: rest =>
    if x = separator then [] :: pieces separator rest
    else
      match pieces separator rest with
      | [] => [[x]]
      | piece :: more => (x :: piece) :: more

/-- A session over a text. -/
def ofText (pretty : Bool) (env : Environment) (input : String) : Outcome :=
  run pretty env ((pieces '\n' input.toList).map some)

/-- A session over bytes. Lines are decoded one by one, so that those before one that is no text
still count. -/
def ofBytes (pretty : Bool) (env : Environment) (input : ByteArray) : Outcome :=
  run pretty env ((pieces 10 input.toList).map fun line =>
    (String.fromUTF8? ⟨line.toArray⟩).map String.toList)

end Session
end PixelCalc
