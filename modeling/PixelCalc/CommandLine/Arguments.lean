import PixelCalc.Exchange.Request

/-!
# Command-line arguments

- `Command`: what the program can be asked to do.
- `Switch`: the options of commands. A long option takes its value after `=` or from the next
  argument; a short one takes it from the rest of its argument or from the next one, and short
  options without values may stand together.
- `Command.ofArguments?`: the command that arguments stand for, if they follow these rules.
-/

namespace PixelCalc

/-- What the program can be asked to do. -/
inductive Command where
  | eval (request : Request) (json pretty : Bool)
  | repl (input? : Option String) (pretty : Bool)
  | docs
  | doc (category : String)

namespace CommandLine

/-- The options of commands. -/
inductive Switch where
  | binding
  | input
  | json
  | pretty
  | syntaxOnly
deriving Repr, DecidableEq

namespace Switch

/-- The name of an option after two dashes. -/
def longName : Switch → String
  | binding => "var"
  | input => "input"
  | json => "json"
  | pretty => "pretty"
  | syntaxOnly => "syntax-only"

/-- The letter of an option after one dash. -/
def letter? : Switch → Option Char
  | binding => some 'v'
  | input => some 'i'
  | pretty => some 'p'
  | json | syntaxOnly => none

/-- The option takes a value. -/
def takesValue : Switch → Bool
  | binding | input => true
  | json | pretty | syntaxOnly => false

/-- The option may be given more than once. -/
def repeatable : Switch → Bool
  | binding => true
  | _ => false

end Switch

/-- An argument that has been understood. -/
inductive Part where
  | switch (s : Switch)
  | setting (s : Switch) (value : String)
  | positional (value : String)

/-- The option that a part gives. -/
def Part.switch? : Part → Option Switch
  | switch s | setting s _ => some s
  | positional _ => none

/-- An argument that can be a value of its own. One that begins with a dash is an option, a dash
alone is not. -/
def isPlain (arg : String) : Bool :=
  arg == "-" || arg.toList.head? != some '-'

/-- What stands after the first dash or dashes of an argument. -/
inductive Dashes where
  /-- Two dashes and nothing else: only positional arguments follow. -/
  | separator
  | long (name : List Char) (value? : Option (List Char))
  | short (letters : List Char)
  | plain

/-- Sorts an argument by its dashes. -/
def Dashes.ofArgument (arg : String) : Dashes :=
  match arg.toList with
  | ['-', '-'] => .separator
  | '-' :: '-' :: rest =>
    match rest.dropWhile (fun c => c ≠ '=') with
    | _ :: value => .long (rest.takeWhile fun c => c ≠ '=') (some value)
    | [] => .long rest none
  | '-' :: c :: rest => .short (c :: rest)
  | _ => .plain

/-- Short options in one argument. The first that takes a value takes what follows it, without a
leading `=`; if nothing follows, its value is the next argument, and the option is returned beside
the parts. -/
def shortParts? (allowed : List Switch) : List Char → Option (List Part × Option Switch)
  | [] => some ([], none)
  | c :: rest =>
    match allowed.find? fun s => s.letter? == some c with
    | none => none
    | some s =>
      if s.takesValue then
        match rest with
        | [] => some ([], some s)
        | '=' :: value => some ([.setting s (String.ofList value)], none)
        | value => some ([.setting s (String.ofList value)], none)
      else
        (shortParts? allowed rest).map fun (parts, open?) => (.switch s :: parts, open?)

/-- The parts of the arguments of a command. `open?` is an option that waits for its value. -/
def parts? (allowed : List Switch) (open? : Option Switch) : List String → Option (List Part)
  | [] => if open?.isSome then none else some []
  | arg :: rest =>
    match open? with
    | some s =>
      if isPlain arg then (parts? allowed none rest).map fun parts => .setting s arg :: parts
      else none
    | none =>
      match Dashes.ofArgument arg with
      | .separator => some (rest.map .positional)
      | .long name value? =>
        match allowed.find? fun s => s.longName.toList == name with
        | none => none
        | some s =>
          match s.takesValue, value? with
          | true, some value =>
            (parts? allowed none rest).map fun parts => .setting s (String.ofList value) :: parts
          | true, none => parts? allowed (some s) rest
          | false, some _ => none
          | false, none => (parts? allowed none rest).map fun parts => .switch s :: parts
      | .short letters =>
        match shortParts? allowed letters with
        | none => none
        | some (parts, open?) =>
          (parts? allowed open? rest).map fun more => parts ++ more
      | .plain => (parts? allowed none rest).map fun parts => .positional arg :: parts

/-- No option that may be given once is given twice. -/
def noRepetition (parts : List Part) : Bool :=
  let once := (parts.filterMap Part.switch?).filter fun s => !s.repeatable
  once.eraseDups.length == once.length

/-- The parts of arguments that keep the rules of a command. -/
def read? (allowed : List Switch) (args : List String) : Option (List Part) :=
  (parts? allowed none args).filter noRepetition

/-- The positional arguments in order. -/
def positionals (parts : List Part) : List String :=
  parts.filterMap fun
    | .positional value => some value
    | _ => none

/-- The values of an option in order. -/
def settings (s : Switch) (parts : List Part) : List String :=
  parts.filterMap fun
    | .setting s' value => if s' = s then some value else none
    | _ => none

/-- An option without a value is given. -/
def given (s : Switch) (parts : List Part) : Bool :=
  parts.any fun
    | .switch s' => s' = s
    | _ => false

/-- The arguments of `eval`. -/
def evalCommand? (args : List String) : Option Command := do
  let parts ← read? [.binding, .input, .json, .pretty, .syntaxOnly] args
  match positionals parts with
  | [expression] =>
    return .eval
      ⟨expression, settings .binding parts, (settings .input parts).head?,
        given .syntaxOnly parts⟩
      (given .json parts) (given .pretty parts)
  | _ => none

/-- The arguments of `repl`. -/
def replCommand? (args : List String) : Option Command := do
  let parts ← read? [.input, .pretty] args
  match positionals parts with
  | [] => return .repl (settings .input parts).head? (given .pretty parts)
  | _ => none

/-- The arguments of `docs`. -/
def docsCommand? (args : List String) : Option Command := do
  let parts ← read? [] args
  match positionals parts with
  | [] => return .docs
  | _ => none

/-- The arguments of `doc`. -/
def docCommand? (args : List String) : Option Command := do
  let parts ← read? [] args
  match positionals parts with
  | [category] => return .doc category
  | _ => none

end CommandLine

/-- The command that arguments stand for. -/
def Command.ofArguments? : List String → Option Command
  | "eval" :: args => CommandLine.evalCommand? args
  | "repl" :: args => CommandLine.replCommand? args
  | "docs" :: args => CommandLine.docsCommand? args
  | "doc" :: args => CommandLine.docCommand? args
  | _ => none

end PixelCalc
