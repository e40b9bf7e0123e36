import PixelCalc.Json.Number

/-!
# Reading JSON

A text becomes lexemes (brackets, colons, commas and scalars), and lexemes become a document. Both
passes accept exactly the documents of JSON, unless they are nested too deep; of several fields with
one name the last counts.

- `readChar?`, `readString?`: a character of a text in quotes, and the whole of it.
- `lexemes?`: the lexemes of a text; `lexeme?_length` says that every lexeme uses up text.
- `Frame`: an array or an object that is still open; `maxDepth` is how many there may be at once.
- `read?`: the document that a text is.
-/

namespace PixelCalc
namespace Json

/-! ### Texts in quotes -/

/-- The value of a hexadecimal digit. -/
def hexValue? (c : Char) : Option Nat :=
  if c.isDigit then some (c.toNat - '0'.toNat)
  else if 'a' ≤ c ∧ c ≤ 'f' then some (c.toNat - 'a'.toNat + 10)
  else if 'A' ≤ c ∧ c ≤ 'F' then some (c.toNat - 'A'.toNat + 10)
  else none

/-- The character that a backslash and a letter stand for. -/
def shortEscape? : Char → Option Char
  | '"' => some '"'
  | '\\' => some '\\'
  | '/' => some '/'
  | 'b' => some '\x08'
  | 'f' => some '\x0c'
  | 'n' => some '\n'
  | 'r' => some '\r'
  | 't' => some '\t'
  | _ => none

/-- The first of a pair of codes that stand for one character. -/
def isHighSurrogate (n : Nat) : Bool :=
  0xD800 ≤ n && n ≤ 0xDBFF

/-- The second of a pair of codes that stand for one character. -/
def isLowSurrogate (n : Nat) : Bool :=
  0xDC00 ≤ n && n ≤ 0xDFFF

/-- A code of four hexadecimal digits and the text after it. -/
def readCode? : List Char → Option (Nat × List Char)
  | a :: b :: c :: d :: rest =>
    match hexValue? a, hexValue? b, hexValue? c, hexValue? d with
    | some a, some b, some c, some d => some (4096 * a + 256 * b + 16 * c + d, rest)
    | _, _, _, _ => none
  | _ => none

/-- The character after a backslash and `u`: one code, or a pair of them. Half a pair is no
character. -/
def readUnicode? (cs : List Char) : Option (Char × List Char) :=
  match readCode? cs with
  | none => none
  | some (n, rest) =>
    if isHighSurrogate n then
      match rest with
      | '\\' :: 'u' :: rest =>
        match readCode? rest with
        | none => none
        | some (low, rest) =>
          if isLowSurrogate low then
            some (Char.ofNat (0x10000 + 0x400 * (n - 0xD800) + (low - 0xDC00)), rest)
          else
            none
      | _ => none
    else if isLowSurrogate n then
      none
    else
      some (Char.ofNat n, rest)

/-- One character of a text in quotes. Control characters have to be escaped. -/
def readChar? : List Char → Option (Char × List Char)
  | [] => none
  | '\\' :: 'u' :: rest => readUnicode? rest
  | '\\' :: e :: rest => (shortEscape? e).map fun c => (c, rest)
  | c :: rest => if c = '\\' ∨ c.toNat < 0x20 then none else some (c, rest)

/-- A code takes four characters. -/
theorem readCode?_length {cs rest : List Char} {n : Nat} (h : readCode? cs = some (n, rest)) :
    rest.length < cs.length := by
  unfold readCode? at h
  split at h
  · split at h
    · cases h
      simp only [List.length_cons]
      omega
    · cases h
  · cases h

/-- An escape takes one code or two. -/
theorem readUnicode?_length {cs rest : List Char} {c : Char}
    (h : readUnicode? cs = some (c, rest)) : rest.length < cs.length := by
  unfold readUnicode? at h
  split at h
  · cases h
  · rename_i hcode
    have hfirst := readCode?_length hcode
    split at h
    · split at h
      · split at h
        · cases h
        · rename_i hlow
          have hsecond := readCode?_length hlow
          simp only [List.length_cons] at hfirst
          split at h
          · simp only [Option.some.injEq, Prod.mk.injEq] at h
            obtain ⟨-, rfl⟩ := h
            omega
          · cases h
      · cases h
    · split at h
      · cases h
      · simp only [Option.some.injEq, Prod.mk.injEq] at h
        obtain ⟨-, rfl⟩ := h
        exact hfirst

/-- A character of a text in quotes uses up text. -/
theorem readChar?_length {cs rest : List Char} {c : Char} (h : readChar? cs = some (c, rest)) :
    rest.length < cs.length := by
  unfold readChar? at h
  split at h
  · cases h
  · exact Nat.lt_succ_of_lt (Nat.lt_succ_of_lt (readUnicode?_length h))
  · obtain ⟨x, -, hx⟩ := Option.map_eq_some_iff.mp h
    cases hx
    simp only [List.length_cons]
    omega
  · split at h
    · cases h
    · cases h
      exact Nat.lt_succ_self _

/-- Reads up to the closing quote: the characters and the text after the quote. -/
def readString? (cs : List Char) : Option (List Char × List Char) :=
  if cs.head? = some '"' then
    some ([], cs.tail)
  else
    match _h : readChar? cs with
    | none => none
    | some (c, rest) => (readString? rest).map fun (s, rest) => (c :: s, rest)
termination_by cs.length
decreasing_by exact readChar?_length _h

/-! ### Lexemes -/

/-- A sign or a scalar of a JSON text. -/
inductive Lexeme where
  | openArray
  | closeArray
  | openObject
  | closeObject
  | colon
  | comma
  | scalar (j : Json)

/-- White space between lexemes. -/
def isSpace (c : Char) : Bool :=
  c = ' ' || c = '\t' || c = '\n' || c = '\r'

/-- The signs of one character. -/
def sign? : Char → Option Lexeme
  | '[' => some .openArray
  | ']' => some .closeArray
  | '\x7b' => some .openObject
  | '\x7d' => some .closeObject
  | ':' => some .colon
  | ',' => some .comma
  | _ => none

/-- The word for a scalar at the front of a text and the text after it. -/
def readWord? : List Char → Option (Json × List Char)
  | 'n' :: 'u' :: 'l' :: 'l' :: rest => some (null, rest)
  | 't' :: 'r' :: 'u' :: 'e' :: rest => some (bool true, rest)
  | 'f' :: 'a' :: 'l' :: 's' :: 'e' :: rest => some (bool false, rest)
  | _ => none

/-- The scalar that begins with `c` and the text after it. -/
def readScalar? (c : Char) (cs : List Char) : Option (Json × List Char) :=
  if c = '"' then (readString? cs).map fun (s, rest) => (text (String.ofList s), rest)
  else if c = '-' ∨ c.isDigit then readNumber? (c :: cs)
  else readWord? (c :: cs)

/-- The lexeme that begins with `c`, which is no space, and the text after it. -/
def lexeme? (c : Char) (cs : List Char) : Option (Lexeme × List Char) :=
  match sign? c with
  | some l => some (l, cs)
  | none => (readScalar? c cs).map fun (j, rest) => (.scalar j, rest)

/-! ### A lexeme uses up text -/

/-- A text in quotes takes its characters and the closing mark. The reader starts behind the opening
mark, so the bound is not strict. -/
theorem readString?_length (cs : List Char) : ∀ {s rest : List Char},
    readString? cs = some (s, rest) → rest.length ≤ cs.length := by
  fun_induction readString? cs with
  | case1 cs =>
    intro s rest h
    cases h
    rw [List.length_tail]
    omega
  | case2 =>
    intro s rest h
    cases h
  | case3 cs _ c rest hchar ih =>
    intro s rest h
    obtain ⟨⟨s', r⟩, hr, h⟩ := Option.map_eq_some_iff.mp h
    cases h
    exact Nat.le_trans (ih hr) (Nat.le_of_lt (readChar?_length hchar))

/-- A word takes its letters. -/
theorem readWord?_length {cs rest : List Char} {j : Json} (h : readWord? cs = some (j, rest)) :
    rest.length < cs.length := by
  unfold readWord? at h
  split at h <;> cases h <;> simp only [List.length_cons] <;> omega

/-- The first character is no longer part of the text that is left, so a lexeme of one character
takes nothing from it. -/
theorem lexeme?_length {c : Char} {cs rest : List Char} {l : Lexeme}
    (h : lexeme? c cs = some (l, rest)) : rest.length ≤ cs.length := by
  unfold lexeme? at h
  split at h
  · cases h
    exact Nat.le_refl _
  · obtain ⟨⟨j, r⟩, hj, h⟩ := Option.map_eq_some_iff.mp h
    cases h
    unfold readScalar? at hj
    split at hj
    · obtain ⟨⟨s, r⟩, hs, h⟩ := Option.map_eq_some_iff.mp hj
      cases h
      exact readString?_length cs hs
    · split at hj
      · exact Nat.le_of_lt_succ (readNumber?_length hj)
      · exact Nat.le_of_lt_succ (readWord?_length hj)

/-- The lexemes of a text. -/
def lexemes? : List Char → Option (List Lexeme)
  | [] => some []
  | c :: cs =>
    if isSpace c then lexemes? cs
    else
      match _h : lexeme? c cs with
      | none => none
      | some (l, rest) => (lexemes? rest).map fun ls => l :: ls
termination_by cs => cs.length
decreasing_by
  · exact Nat.lt_succ_self _
  · exact Nat.lt_succ_of_le (lexeme?_length _h)

/-! ### Documents -/

/-- An array or an object that is still open: what it holds so far, and the name of the field whose
value is being read. The items of an array are kept in reverse. -/
inductive Frame where
  | array (items : List Json)
  | object (fields : List (String × Json)) (name : String)

mutual

/-- Reads on where a value begins. -/
def readValue? (stack : List Frame) : List Lexeme → Option Json
  | .scalar j :: rest => readAfter? stack j rest
  | .openArray :: .closeArray :: rest => readAfter? stack (.array []) rest
  | .openArray :: rest => readValue? (.array [] :: stack) rest
  | .openObject :: .closeObject :: rest => readAfter? stack (.object []) rest
  | .openObject :: .scalar (.text name) :: .colon :: rest =>
    readValue? (.object [] name :: stack) rest
  | _ => none

/-- Reads on where a value has ended. -/
def readAfter? (stack : List Frame) (j : Json) : List Lexeme → Option Json
  | [] => if stack.isEmpty then some j else none
  | .comma :: rest =>
    match stack, rest with
    | .array items :: stack, rest => readValue? (.array (j :: items) :: stack) rest
    | .object fields name :: stack, .scalar (.text next) :: .colon :: rest =>
      readValue? (.object (Table.insert fields name j) next :: stack) rest
    | _, _ => none
  | .closeArray :: rest =>
    match stack with
    | .array items :: stack => readAfter? stack (.array (j :: items).reverse) rest
    | _ => none
  | .closeObject :: rest =>
    match stack with
    | .object fields name :: stack =>
      readAfter? stack (.object (Table.insert fields name j)) rest
    | _ => none
  | _ => none

end

/-- How many arrays and objects are open at once, at most. -/
def depth : List Lexeme → Nat
  | [] => 0
  | .openArray :: rest | .openObject :: rest => depth rest + 1
  | .closeArray :: rest | .closeObject :: rest => depth rest - 1
  | _ :: rest => depth rest

/-- How deep a document may be nested. -/
def maxDepth : Nat := 127

/-- The document that lexemes are. -/
def document? (ls : List Lexeme) : Option Json :=
  if depth ls ≤ maxDepth then readValue? [] ls else none

/-- The document that a text is. -/
def read? (source : String) : Option Json :=
  (lexemes? source.toList).bind document?

end Json
end PixelCalc
