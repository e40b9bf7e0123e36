import PixelCalc.Binary64.Reading
import PixelCalc.Json.Basic

/-!
# JSON numbers

A number without a point and without an exponent is an integer if 64 bits can hold it. Any other
number is a double: its leading digits, as many as 64 bits can hold, times a power of ten. The
result is the product or the quotient of two doubles and may miss the nearest double by one place.

- `scale?`: a double times a power of ten; a result out of range is no number.
- `readNumber?`: the number at the front of a text.
-/

namespace PixelCalc
namespace Json

/-- The largest integer of 64 bits. -/
def maxInteger : Nat :=
  UInt64.size - 1

/-- The magnitude of the least negative integer of 64 bits. -/
def minInteger : Nat :=
  UInt64.size / 2

/-- Appends digits to `n` as long as the result is an integer of 64 bits; returns the digits left
over as well. -/
def absorb (n : Nat) : List Char → Nat × List Char
  | [] => (n, [])
  | c :: rest =>
    let next := 10 * n + Binary64.digitValue c
    if next ≤ maxInteger then absorb next rest else (n, c :: rest)

/-- `x · 10^e`, in steps of `10^308`. A product that is too large has no value. -/
def scale? (x : Float) (e : Int) : Option Float :=
  if 0 ≤ e ∧ e ≤ 308 then
    let y := x * Binary64.ofDecimal 1 e
    if y.isInf then none else some y
  else if -308 ≤ e ∧ e < 0 then
    some (x / Binary64.ofDecimal 1 (-e))
  else if x == 0 then
    some x
  else if 0 ≤ e then
    none
  else
    scale? (x / Binary64.ofDecimal 1 308) (e + 308)
termination_by e.natAbs
decreasing_by omega

/-- The double of a number with whole digits, fraction digits and an exponent. Whole digits that do
not fit count as zeros, fraction digits that do not fit are dropped. -/
def realOf? (negative : Bool) (whole places : List Char) (exponent : Int) : Option Json :=
  let (high, skipped) := absorb 0 whole
  let (digits, dropped) := absorb high places
  let places := places.length - dropped.length
  (scale? (Binary64.ofNatural digits) (exponent + skipped.length - places)).map fun x =>
    real (Binary64.withSign negative x)

/-- A number without a point and without an exponent. A negative zero is no integer. -/
def integerOf? (negative : Bool) (whole : List Char) : Option Json :=
  let n := Binary64.digitsValue whole
  if negative then
    if 0 < n ∧ n ≤ minInteger then some (integer (-n)) else realOf? true whole [] 0
  else if n ≤ maxInteger then some (integer n)
  else realOf? false whole [] 0

/-- The digits at the front of a text, at least one, and the text after them. -/
def digits? (cs : List Char) : Option (List Char × List Char) :=
  match cs.takeWhile Char.isDigit with
  | [] => none
  | ds => some (ds, cs.dropWhile Char.isDigit)

/-- The exponent after its letter. -/
def exponent? (cs : List Char) : Option (Int × List Char) :=
  match cs with
  | '+' :: cs => (digits? cs).map fun (ds, rest) => (Binary64.digitsValue ds, rest)
  | '-' :: cs => (digits? cs).map fun (ds, rest) => (-Binary64.digitsValue ds, rest)
  | cs => (digits? cs).map fun (ds, rest) => (Binary64.digitsValue ds, rest)

/-- What follows the whole digits and the fraction of a number: an exponent or the end. -/
def readExponent? (negative : Bool) (whole places : List Char) (cs : List Char) :
    Option (Json × List Char) :=
  match cs with
  | 'e' :: cs | 'E' :: cs =>
    match exponent? cs with
    | none => none
    | some (e, rest) => (realOf? negative whole places e).map fun j => (j, rest)
  | cs => (realOf? negative whole places 0).map fun j => (j, cs)

/-- What follows the whole digits of a number: a fraction, an exponent or the end. -/
def readFraction? (negative : Bool) (whole : List Char) (cs : List Char) :
    Option (Json × List Char) :=
  match cs with
  | '.' :: cs =>
    match digits? cs with
    | none => none
    | some (places, rest) => readExponent? negative whole places rest
  | 'e' :: _ | 'E' :: _ => readExponent? negative whole [] cs
  | cs => (integerOf? negative whole).map fun j => (j, cs)

/-- A number without its sign, at the front of a text. The first of several whole digits is not
zero. -/
def readUnsigned? (negative : Bool) (cs : List Char) : Option (Json × List Char) :=
  match digits? cs with
  | none => none
  | some (whole, rest) =>
    if whole.head? = some '0' ∧ 1 < whole.length then none else readFraction? negative whole rest

/-- The number at the front of a text and the text after it. -/
def readNumber? : List Char → Option (Json × List Char)
  | '-' :: cs => readUnsigned? true cs
  | cs => readUnsigned? false cs

/-! ### A number uses up text -/

/-- There is at least one digit, so the text gets shorter. -/
theorem digits?_length {cs ds rest : List Char} (h : digits? cs = some (ds, rest)) :
    rest.length < cs.length := by
  unfold digits? at h
  split at h
  · cases h
  · rename_i hds
    cases h
    have hsplit : (cs.takeWhile Char.isDigit ++ cs.dropWhile Char.isDigit).length = cs.length := by
      rw [List.takeWhile_append_dropWhile]
    have hpos : 0 < (cs.takeWhile Char.isDigit).length := List.length_pos_iff.mpr hds
    rw [List.length_append] at hsplit
    omega

/-- An exponent has at least one digit, whatever its sign. -/
theorem exponent?_length {cs rest : List Char} {e : Int} (h : exponent? cs = some (e, rest)) :
    rest.length < cs.length := by
  unfold exponent? at h
  split at h <;> obtain ⟨⟨ds, r⟩, hds, hr⟩ := Option.map_eq_some_iff.mp h <;> cases hr
  · exact Nat.lt_succ_of_lt (digits?_length hds)
  · exact Nat.lt_succ_of_lt (digits?_length hds)
  · exact digits?_length hds

/-- An exponent may be missing, so the text need not get shorter here. -/
theorem readExponent?_length {negative : Bool} {whole places cs rest : List Char} {j : Json}
    (h : readExponent? negative whole places cs = some (j, rest)) : rest.length ≤ cs.length := by
  have hreal {e : Int} {r cs : List Char} (hr : r.length ≤ cs.length)
      (h : (realOf? negative whole places e).map (fun j => (j, r)) = some (j, rest)) :
      rest.length ≤ cs.length := by
    obtain ⟨x, -, hx⟩ := Option.map_eq_some_iff.mp h
    cases hx
    exact hr
  unfold readExponent? at h
  split at h
  · split at h
    · cases h
    · rename_i he
      exact hreal (Nat.le_succ_of_le (Nat.le_of_lt (exponent?_length he))) h
  · split at h
    · cases h
    · rename_i he
      exact hreal (Nat.le_succ_of_le (Nat.le_of_lt (exponent?_length he))) h
  · exact hreal (Nat.le_refl _) h

/-- A fraction may be missing, so the text need not get shorter here either. -/
theorem readFraction?_length {negative : Bool} {whole cs rest : List Char} {j : Json}
    (h : readFraction? negative whole cs = some (j, rest)) : rest.length ≤ cs.length := by
  unfold readFraction? at h
  split at h
  · split at h
    · cases h
    · rename_i hplaces
      exact Nat.le_succ_of_le
        (Nat.le_trans (readExponent?_length h) (Nat.le_of_lt (digits?_length hplaces)))
  · exact readExponent?_length h
  · exact readExponent?_length h
  · obtain ⟨x, -, hx⟩ := Option.map_eq_some_iff.mp h
    cases hx
    exact Nat.le_refl _

/-- The whole digits are what a number always has. -/
theorem readUnsigned?_length {negative : Bool} {cs rest : List Char} {j : Json}
    (h : readUnsigned? negative cs = some (j, rest)) : rest.length < cs.length := by
  unfold readUnsigned? at h
  split at h
  · cases h
  · rename_i hwhole
    split at h
    · cases h
    · exact Nat.lt_of_le_of_lt (readFraction?_length h) (digits?_length hwhole)

/-- A number is not empty. -/
theorem readNumber?_length {cs rest : List Char} {j : Json} (h : readNumber? cs = some (j, rest)) :
    rest.length < cs.length := by
  unfold readNumber? at h
  split at h
  · exact Nat.lt_succ_of_lt (readUnsigned?_length h)
  · exact readUnsigned?_length h

end Json
end PixelCalc
