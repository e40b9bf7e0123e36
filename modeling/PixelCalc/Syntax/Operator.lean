/-!
# Operators and their precedence

- `Operator`: the fourteen binary operators, with their symbol in trees (`symbol`) and in messages
  (`label`).
- `Tier`, `tiers`: the order in which operators bind, the tightest first.
-/

namespace PixelCalc

/-- The binary operators of expressions. -/
inductive Operator where
  | plus
  | minus
  | times
  | divide
  | remainder
  | power
  | range
  | equal
  | notEqual
  | greater
  | greaterEqual
  | less
  | lessEqual
  | assign
deriving Repr, DecidableEq

namespace Operator

/-- Every operator once. -/
def all : List Operator :=
  [plus, minus, times, divide, remainder, power, range, equal, notEqual, greater, greaterEqual,
    less, lessEqual, assign]

theorem mem_all (op : Operator) : op ∈ all := by
  cases op <;> decide

/-- The symbol by which an operator is written in a tree. -/
def symbol : Operator → String
  | plus => "+"
  | minus => "-"
  | times => "*"
  | divide => "/"
  | remainder => "%"
  | power => "**"
  | range => ".."
  | equal => "=="
  | notEqual => "!="
  | greater => ">"
  | greaterEqual => ">="
  | less => "<"
  | lessEqual => "<="
  | assign => "="

/-- The operator as messages quote it: power and range name both of their spellings. -/
def label : Operator → String
  | power => "**' or '^"
  | range => "..' or ':"
  | op => op.symbol

/-- The operator with a given symbol. -/
def ofSymbol? (s : String) : Option Operator :=
  all.find? fun op => op.symbol == s

theorem ofSymbol?_symbol (op : Operator) : ofSymbol? op.symbol = some op := by
  cases op <;> decide

end Operator

/-- Operators that bind equally tightly. -/
structure Tier where
  operators : List Operator
  /-- Only operators without a value on their left bind in this tier. -/
  prefixOnly : Bool
deriving Repr

/-- The tiers from the tightest to the loosest. Power comes twice: as a prefix it binds before
ranges do, so that `a..^b` is a range whose end is `^b`; between two values it binds after them. -/
def tiers : List Tier := [
  ⟨[.power], true⟩,
  ⟨[.range], false⟩,
  ⟨[.power], false⟩,
  ⟨[.times, .divide, .remainder], false⟩,
  ⟨[.plus, .minus], false⟩,
  ⟨[.equal, .notEqual, .greater, .greaterEqual, .less, .lessEqual], false⟩,
  ⟨[.assign], false⟩]

/-- Every operator binds in some tier, whatever stands on its left. -/
theorem exists_tier (op : Operator) :
    ∃ tier ∈ tiers, op ∈ tier.operators ∧ tier.prefixOnly = false := by
  cases op <;> simp [tiers]

end PixelCalc
