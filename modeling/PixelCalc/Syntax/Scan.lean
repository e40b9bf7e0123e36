import PixelCalc.Binary64.Reading
import PixelCalc.Syntax.Error
import PixelCalc.Text.Alphabetic

/-!
# Scanning

Text becomes tokens from left to right. Spaces separate tokens and are dropped; no other white
space is part of the language. The only state carried from token to token is whether the last one
ended a value: after a value `-` subtracts, elsewhere a `-` before a digit is a sign.

- `mark?`, `pair?`: the signs of one character, and those that change their meaning before a second.
- `scanNumber`: a literal and what follows it.
- `next`: one token; `next_length` says that it uses up text.
- `scan`: all tokens up to the end or the first error; `tokenize` keeps one of the two.
-/

namespace PixelCalc
namespace Scan

/-- A token, or the error that a text has in its place. -/
abbrev Reading := Except SyntaxError Token

/-- The signs that mean the same whatever follows. -/
def mark? : Char → Option Token
  | '(' => some (.opening .round)
  | ')' => some (.closing .round)
  | '[' => some (.opening .square)
  | ']' => some (.closing .square)
  | ',' => some .comma
  | ':' => some (.operator .range)
  | '+' => some (.operator .plus)
  | '^' => some (.operator .power)
  | '/' => some (.operator .divide)
  | '%' => some (.operator .remainder)
  | _ => none

/-- A sign that means one thing before a certain second character and another thing elsewhere. -/
structure Pair where
  second : Char
  /-- The reading of both characters. -/
  both : Reading
  /-- The reading of the first one alone. -/
  alone : Reading

/-- The signs that may be doubled or followed by `=`. -/
def pair? : Char → Option Pair
  | '.' => some ⟨'.', .ok (.operator .range), .ok .dot⟩
  | '*' => some ⟨'*', .ok (.operator .power), .ok (.operator .times)⟩
  | '>' => some ⟨'=', .ok (.operator .greaterEqual), .ok (.operator .greater)⟩
  | '<' => some ⟨'=', .ok (.operator .lessEqual), .ok (.operator .less)⟩
  | '=' => some ⟨'=', .ok (.operator .equal), .ok (.operator .assign)⟩
  | '!' => some ⟨'=', .ok (.operator .notEqual), .error (.unsupported "!")⟩
  | '&' => some ⟨'&', .error (.unsupported "&&"), .error (.unsupported "&")⟩
  | '|' => some ⟨'|', .error (.unsupported "||"), .error (.unsupported "|")⟩
  | _ => none

/-! ### Numbers -/

/-- What follows the whole digits of a number: the digits of its fraction, and the text after the
literal. A point before a digit opens a fraction. A point before another point or before a name is
left for the range or the call that it starts; any other point belongs to the literal. -/
def fraction : List Char → List Char × List Char
  | '.' :: c :: cs =>
    if c.isDigit then ((c :: cs).takeWhile Char.isDigit, (c :: cs).dropWhile Char.isDigit)
    else if c = '.' ∨ Text.isAlphabetic c then ([], '.' :: c :: cs)
    else ([], c :: cs)
  | ['.'] => ([], [])
  | cs => ([], cs)

/-- The literal at the front of a text that begins with a digit, and the text after it. -/
def scanNumber (cs : List Char) : Float × List Char :=
  let whole := cs.takeWhile Char.isDigit
  let (places, rest) := fraction (cs.dropWhile Char.isDigit)
  (Binary64.ofDecimal (Binary64.digitsValue (whole ++ places)) (-places.length), rest)

/-! ### One token -/

/-- What stands at the front of a text. -/
inductive Step where
  /-- The text is used up. -/
  | done
  | stop (e : SyntaxError)
  | token (t : Token) (rest : List Char)

/-- A reading and the text after it. -/
def Step.ofReading (reading : Reading) (rest : List Char) : Step :=
  match reading with
  | .ok t => .token t rest
  | .error e => .stop e

/-- The number at the front of `cs`, which begins with a digit. -/
def Step.number (negative : Bool) (cs : List Char) : Step :=
  .token (.number (Binary64.withSign negative (scanNumber cs).1)) (scanNumber cs).2

/-- The token that begins with `c`, which is no space, before the text `cs`. -/
def tokenAt (afterValue : Bool) (c : Char) (cs : List Char) : Step :=
  match mark? c with
  | some t => .token t cs
  | none =>
    match pair? c with
    | some p => if cs.head? = some p.second then .ofReading p.both cs.tail else .ofReading p.alone cs
    | none =>
      if c = '-' then
        if !afterValue && cs.head?.any Char.isDigit then .number true cs
        else .token (.operator .minus) cs
      else if Text.isAlphabetic c then
        .token (.name (String.ofList ((c :: cs).takeWhile Text.isAlphabetic)))
          ((c :: cs).dropWhile Text.isAlphabetic)
      else if c.isDigit then .number false (c :: cs)
      else .stop (.unexpected c)

/-- The first token of a text. -/
def next (afterValue : Bool) : List Char → Step
  | [] => .done
  | c :: cs => if c = ' ' then next afterValue cs else tokenAt afterValue c cs

/-! ### A token uses up text -/

theorem fraction_length (cs : List Char) : (fraction cs).2.length ≤ cs.length := by
  have hdrop (l : List Char) : (l.dropWhile Char.isDigit).length ≤ l.length :=
    (List.dropWhile_suffix _).length_le
  unfold fraction
  split
  · rename_i c cs
    have := hdrop (c :: cs)
    split
    · exact Nat.le_succ_of_le this
    · split <;> simp
  · simp
  · exact Nat.le_refl _

/-- A literal has at least the digit it begins with. -/
theorem scanNumber_length {c : Char} (h : c.isDigit = true) (cs : List Char) :
    (scanNumber (c :: cs)).2.length < (c :: cs).length := by
  have hdrop : (cs.dropWhile Char.isDigit).length ≤ cs.length :=
    (List.dropWhile_suffix _).length_le
  have hfraction := fraction_length (cs.dropWhile Char.isDigit)
  simp only [scanNumber, List.dropWhile_cons, h, if_true, List.length_cons]
  omega

theorem ofReading_eq_token {reading : Reading} {rest rest' : List Char} {t : Token}
    (h : Step.ofReading reading rest = .token t rest') : rest' = rest := by
  cases reading <;> simp [Step.ofReading] at h
  exact h.2.symm

/-- A token takes at least the character that it starts with. -/
theorem tokenAt_length {afterValue : Bool} {c : Char} {cs rest : List Char} {t : Token}
    (h : tokenAt afterValue c cs = .token t rest) : rest.length ≤ cs.length := by
  unfold tokenAt at h
  split at h
  · cases h
    exact Nat.le_refl _
  · split at h
    · split at h
      · rw [ofReading_eq_token h, List.length_tail]
        omega
      · exact Nat.le_of_eq (congrArg List.length (ofReading_eq_token h))
    · split at h
      · split at h
        -- a minus sign that belongs to a number is followed by a digit
        · rename_i hsign
          cases cs with
          | nil => simp at hsign
          | cons d ds =>
            have hd : d.isDigit = true := by simpa using (Bool.and_eq_true_iff.mp hsign).2
            cases h
            exact Nat.le_of_lt (scanNumber_length hd ds)
        · cases h
          exact Nat.le_refl _
      · split at h
        · rename_i halpha
          cases h
          simp only [List.dropWhile_cons, halpha, if_true]
          exact (List.dropWhile_suffix _).length_le
        · split at h
          · rename_i hdigit
            cases h
            exact Nat.le_of_lt_succ (scanNumber_length hdigit cs)
          · cases h

/-- The text after a token is shorter than the text before it. -/
theorem next_length {afterValue : Bool} {t : Token} :
    ∀ {cs rest : List Char}, next afterValue cs = .token t rest → rest.length < cs.length
  | [], _, h => by simp [next] at h
  | c :: cs, rest, h => by
    unfold next at h
    split at h
    · exact Nat.lt_succ_of_lt (next_length h)
    · exact Nat.lt_succ_of_le (tokenAt_length h)

/-! ### All tokens -/

/-- The tokens of a text up to its end or its first error. -/
structure Tokens where
  tokens : List Token
  error? : Option SyntaxError

/-- The tokens of a text, given whether a value ends before it. -/
def scan (afterValue : Bool) (cs : List Char) : Tokens :=
  match _h : next afterValue cs with
  | .done => ⟨[], none⟩
  | .stop e => ⟨[], some e⟩
  | .token t rest =>
    let more := scan t.endsValue rest
    ⟨t :: more.tokens, more.error?⟩
termination_by cs.length
decreasing_by exact next_length _h

/-- The tokens of a whole source. -/
def ofSource (source : String) : Tokens :=
  scan false source.toList

end Scan

/-- The tokens of a source that has no error. -/
def tokenize (source : String) : Except SyntaxError (List Token) :=
  let scanned := Scan.ofSource source
  match scanned.error? with
  | none => .ok scanned.tokens
  | some e => .error e

end PixelCalc
