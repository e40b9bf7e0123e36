import PixelCalc.Binary64.Rounding
import PixelCalc.Binary64.Text
import PixelCalc.Table

/-!
# JSON

- `Json`: JSON documents. Whole numbers of 64 bits are kept apart from other numbers, and the fields
  of an object are a table, in ascending order of their names.
- `Json.compact`: a document in one line without spaces.
- `Json.indented`: a document with every item on a line of its own.
-/

namespace PixelCalc

/-- A JSON document. -/
inductive Json where
  | null
  | bool (b : Bool)
  /-- A number written as an integer that 64 bits can hold. -/
  | integer (n : Int)
  /-- Any other number; it is finite. -/
  | real (x : Float)
  | text (s : String)
  | array (items : List Json)
  /-- Fields in ascending order of their names. -/
  | object (fields : List (String × Json))

namespace Json

/-- The double nearest to a number. -/
def number? : Json → Option Float
  | integer n => some (Binary64.ofInteger n)
  | real x => some x
  | _ => none

/-- The natural number that an integer is. -/
def natural? : Json → Option Nat
  | integer n => if 0 ≤ n then some n.toNat else none
  | _ => none

/-- The items of an array. -/
def items? : Json → Option (List Json)
  | array items => some items
  | _ => none

/-! ### Text -/

/-- A hexadecimal digit in lower case. -/
def hexDigit (n : Nat) : Char :=
  Nat.digitChar n

/-- A character between quotes. Quotes and backslashes get a backslash, control characters have
short names or are written by their code. -/
def escapeChar (c : Char) : List Char :=
  match c with
  | '"' => ['\\', '"']
  | '\\' => ['\\', '\\']
  | '\x08' => ['\\', 'b']
  | '\t' => ['\\', 't']
  | '\n' => ['\\', 'n']
  | '\x0c' => ['\\', 'f']
  | '\r' => ['\\', 'r']
  | c =>
    if c.toNat < 0x20 then
      ['\\', 'u', '0', '0', hexDigit (c.toNat / 16), hexDigit (c.toNat % 16)]
    else
      [c]

/-- A text in quotes. -/
def quote (s : String) : String :=
  String.ofList ('"' :: (s.toList.flatMap escapeChar ++ ['"']))

/-- The opening bracket of an object. -/
def openObject : String :=
  "\x7b"

/-- The closing bracket of an object. -/
def closeObject : String :=
  "\x7d"

mutual

/-- A document in one line without spaces. -/
def compact : Json → String
  | null => "null"
  | bool b => if b then "true" else "false"
  | integer n => toString n
  | real x => Binary64.jsonText x
  | text s => quote s
  | array items => "[" ++ ",".intercalate (compactItems items) ++ "]"
  | object fields => openObject ++ ",".intercalate (compactFields fields) ++ closeObject

/-- The items of an array, each in one line. -/
def compactItems : List Json → List String
  | [] => []
  | j :: rest => j.compact :: compactItems rest

/-- The fields of an object, each in one line. -/
def compactFields : List (String × Json) → List String
  | [] => []
  | (name, j) :: rest => (quote name ++ ":" ++ j.compact) :: compactFields rest

end

/-- The start of a line at a depth: two spaces for each level. -/
def indent (depth : Nat) : String :=
  String.ofList (List.replicate (2 * depth) ' ')

/-- Parts on lines of their own between two brackets; without parts the brackets stand together. -/
def bracketed (opener closer : String) (depth : Nat) (parts : List String) : String :=
  if parts.isEmpty then opener ++ closer
  else
    opener ++ "\n" ++ ",\n".intercalate (parts.map fun part => indent (depth + 1) ++ part) ++ "\n" ++
      indent depth ++ closer

mutual

/-- A document that starts at a depth, with every item on a line of its own. -/
def indentedAt (depth : Nat) : Json → String
  | array items => bracketed "[" "]" depth (indentedItems (depth + 1) items)
  | object fields => bracketed openObject closeObject depth (indentedFields (depth + 1) fields)
  | j => j.compact

/-- The items of an array at a depth. -/
def indentedItems (depth : Nat) : List Json → List String
  | [] => []
  | j :: rest => indentedAt depth j :: indentedItems depth rest

/-- The fields of an object at a depth. -/
def indentedFields (depth : Nat) : List (String × Json) → List String
  | [] => []
  | (name, j) :: rest => (quote name ++ ": " ++ indentedAt depth j) :: indentedFields depth rest

end

/-- A document with every item on a line of its own. -/
def indented (j : Json) : String :=
  indentedAt 0 j

end Json

end PixelCalc
