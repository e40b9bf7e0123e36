import PixelCalc.Json.Reading
import PixelCalc.Text.Blank

/-!
# Text behind a document

Where a document is followed by a character that no lexeme outside of quotes goes on with, it is read
as it is read alone, and what follows is read behind it. So blank characters around a document change
nothing, and a document may stand inside another one as it is.

- `Closes`, `Closing`: characters that end every lexeme, and texts of them.
- `Verbatim`: a piece of text that is read the same with any text behind it.
- `readNumber?_append`, `readString?_append`, `lexemes?_append`: reading with more text behind.
- `read?_trim`: blank characters around a document.
- `readValue?_within`: a document as part of another one.
- `document?_field`: a document as the only field of an object.
-/

namespace PixelCalc
namespace Json

/-! ### Characters behind a lexeme -/

/-- Outside of quotes no lexeme goes on with the character. Blank characters and the closing bracket
of an object are such characters. -/
def Closes (c : Char) : Prop :=
  c.toNat ≤ 0x20 ∨ 0x7D ≤ c.toNat

instance (c : Char) : Decidable (Closes c) :=
  inferInstanceAs (Decidable (_ ∨ _))

/-- A text of such characters. -/
def Closing (behind : List Char) : Prop :=
  ∀ c ∈ behind, Closes c

/-- What is left after reading, with more text behind it. -/
def before {α : Type} (behind : List Char) (read : α × List Char) : α × List Char :=
  (read.1, read.2 ++ behind)

variable {c d : Char} {cs behind rest : List Char}

/-- Digits lie between the blank characters and the closing brace, so they go on with a number. -/
theorem Closes.not_isDigit (h : Closes c) : c.isDigit = false := by
  refine Bool.eq_false_iff.mpr fun hdigit => ?_
  have hrange : 48 ≤ c.toNat ∧ c.toNat ≤ 57 := by
    simpa [Char.isDigit, UInt32.le_iff_toNat_le] using hdigit
  unfold Closes at h
  omega

/-- Hexadecimal digits do too. -/
theorem Closes.hexValue? (h : Closes c) : Json.hexValue? c = none := by
  unfold Json.hexValue?
  have hle (a b : Char) : a ≤ b ↔ a.toNat ≤ b.toNat := Iff.rfl
  rw [if_neg (by simp [h.not_isDigit]), if_neg, if_neg]
  · rw [hle, hle]
    unfold Closes at h
    show ¬ (65 ≤ _ ∧ _ ≤ 70)
    omega
  · rw [hle, hle]
    unfold Closes at h
    show ¬ (97 ≤ _ ∧ _ ≤ 102)
    omega

namespace Closing

/-- The first character behind a document closes its last lexeme. -/
theorem head (h : Closing (c :: behind)) : Closes c :=
  h c List.mem_cons_self

theorem tail (h : Closing (c :: behind)) : Closing behind :=
  fun d hd => h d (.tail _ hd)

/-- A character that may go on a lexeme is not put at the front of a text. -/
theorem head?_append_iff (h : Closing behind) (hd : ¬ Closes d) :
    (cs ++ behind).head? = some d ↔ cs.head? = some d := by
  cases cs with
  | cons c cs => rfl
  | nil =>
    cases behind with
    | nil => rfl
    | cons c behind =>
      refine iff_of_false (fun heq => hd ?_) nofun
      cases heq
      exact h.head

end Closing

/-! ### Numbers -/

/-- Digits are taken up to the same place, since the text behind starts with none. -/
theorem takeWhile_append (h : Closing behind) (cs : List Char) :
    (cs ++ behind).takeWhile Char.isDigit = cs.takeWhile Char.isDigit := by
  induction cs with
  | nil =>
    cases behind with
    | nil => rfl
    | cons c behind => exact List.takeWhile_cons_of_neg (by simp [h.head.not_isDigit])
  | cons c cs ih => rw [List.cons_append, List.takeWhile_cons, List.takeWhile_cons, ih]

/-- What is left after the digits has the text behind it. -/
theorem dropWhile_append (h : Closing behind) (cs : List Char) :
    (cs ++ behind).dropWhile Char.isDigit = cs.dropWhile Char.isDigit ++ behind := by
  induction cs with
  | nil =>
    cases behind with
    | nil => rfl
    | cons c behind => exact List.dropWhile_cons_of_neg (by simp [h.head.not_isDigit])
  | cons c cs ih =>
    rw [List.cons_append, List.dropWhile_cons, List.dropWhile_cons, ih]
    split <;> rfl

/-- Digits are read as they are without the text behind. -/
theorem digits?_append (h : Closing behind) (cs : List Char) :
    digits? (cs ++ behind) = (digits? cs).map (before behind) := by
  unfold digits?
  rw [takeWhile_append h, dropWhile_append h]
  split <;> rfl

/-- An exponent without a sign is its digits. -/
theorem exponent?_of_ne (hplus : cs.head? ≠ some '+') (hminus : cs.head? ≠ some '-') :
    exponent? cs = (digits? cs).map fun (ds, rest) => (Binary64.digitsValue ds, rest) := by
  unfold exponent?
  split
  · exact absurd rfl hplus
  · exact absurd rfl hminus
  · rfl

/-- An exponent is read as it is without the text behind. -/
theorem exponent?_append (h : Closing behind) (cs : List Char) :
    exponent? (cs ++ behind) = (exponent? cs).map (before behind) := by
  -- The head decides which equation applies, and text behind does not change it.
  by_cases hplus : cs.head? = some '+'
  · obtain ⟨cs, rfl⟩ := List.head?_eq_some_iff.mp hplus
    simp only [List.cons_append, exponent?, digits?_append h, Option.map_map]
    rfl
  · by_cases hminus : cs.head? = some '-'
    · obtain ⟨cs, rfl⟩ := List.head?_eq_some_iff.mp hminus
      simp only [List.cons_append, exponent?, digits?_append h, Option.map_map]
      rfl
    · rw [exponent?_of_ne hplus hminus, exponent?_of_ne (mt (h.head?_append_iff (by decide)).mp hplus)
        (mt (h.head?_append_iff (by decide)).mp hminus), digits?_append h, Option.map_map,
        Option.map_map]
      rfl

variable {negative : Bool} {whole places : List Char}

/-- Where no mark of an exponent follows, the number ends and its exponent is zero. -/
theorem readExponent?_of_ne (hlower : cs.head? ≠ some 'e') (hupper : cs.head? ≠ some 'E') :
    readExponent? negative whole places cs =
      (realOf? negative whole places 0).map fun j => (j, cs) := by
  unfold readExponent?
  split
  · exact absurd rfl hlower
  · exact absurd rfl hupper
  · rfl

/-- After either mark there has to be an exponent. -/
theorem readExponent?_mark (hc : c = 'e' ∨ c = 'E') (cs : List Char) :
    readExponent? negative whole places (c :: cs) =
      (exponent? cs).bind fun read =>
        (realOf? negative whole places read.1).map fun j => (j, read.2) := by
  obtain rfl | rfl := hc <;> cases hexponent : exponent? cs <;> simp [readExponent?, hexponent]

/-- The end of a decimal is read as it is without the text behind. -/
theorem readExponent?_append (h : Closing behind) (cs : List Char) :
    readExponent? negative whole places (cs ++ behind) =
      (readExponent? negative whole places cs).map (before behind) := by
  have hmarked {c : Char} (hc : c = 'e' ∨ c = 'E') (cs : List Char) :
      readExponent? negative whole places (c :: cs ++ behind) =
        (readExponent? negative whole places (c :: cs)).map (before behind) := by
    rw [List.cons_append, readExponent?_mark hc, readExponent?_mark hc, exponent?_append h]
    cases exponent? cs with
    | none => rfl
    | some read =>
      simp only [Option.map_some, Option.bind_some, Option.map_map]
      rfl
  by_cases hlower : cs.head? = some 'e'
  · obtain ⟨cs, rfl⟩ := List.head?_eq_some_iff.mp hlower
    exact hmarked (.inl rfl) cs
  · by_cases hupper : cs.head? = some 'E'
    · obtain ⟨cs, rfl⟩ := List.head?_eq_some_iff.mp hupper
      exact hmarked (.inr rfl) cs
    · rw [readExponent?_of_ne hlower hupper,
        readExponent?_of_ne (mt (h.head?_append_iff (by decide)).mp hlower)
          (mt (h.head?_append_iff (by decide)).mp hupper), Option.map_map]
      rfl

/-- Where neither a point nor a mark of an exponent follows, the number is an integer. -/
theorem readFraction?_of_ne (hpoint : cs.head? ≠ some '.') (hlower : cs.head? ≠ some 'e')
    (hupper : cs.head? ≠ some 'E') :
    readFraction? negative whole cs = (integerOf? negative whole).map fun j => (j, cs) := by
  unfold readFraction?
  split
  · exact absurd rfl hpoint
  · exact absurd rfl hlower
  · exact absurd rfl hupper
  · rfl

/-- What follows the whole digits is read as it is without the text behind. -/
theorem readFraction?_append (h : Closing behind) (cs : List Char) :
    readFraction? negative whole (cs ++ behind) =
      (readFraction? negative whole cs).map (before behind) := by
  by_cases hpoint : cs.head? = some '.'
  · obtain ⟨cs, rfl⟩ := List.head?_eq_some_iff.mp hpoint
    simp only [List.cons_append, readFraction?, digits?_append h]
    cases digits? cs with
    | none => rfl
    | some read => exact readExponent?_append h read.2
  · by_cases hlower : cs.head? = some 'e'
    · obtain ⟨cs, rfl⟩ := List.head?_eq_some_iff.mp hlower
      exact readExponent?_append h ('e' :: cs)
    · by_cases hupper : cs.head? = some 'E'
      · obtain ⟨cs, rfl⟩ := List.head?_eq_some_iff.mp hupper
        exact readExponent?_append h ('E' :: cs)
      · rw [readFraction?_of_ne hpoint hlower hupper,
          readFraction?_of_ne (mt (h.head?_append_iff (by decide)).mp hpoint)
            (mt (h.head?_append_iff (by decide)).mp hlower)
            (mt (h.head?_append_iff (by decide)).mp hupper), Option.map_map]
        rfl

/-- A number without its sign is read as it is without the text behind. -/
theorem readUnsigned?_append (h : Closing behind) (negative : Bool) (cs : List Char) :
    readUnsigned? negative (cs ++ behind) = (readUnsigned? negative cs).map (before behind) := by
  unfold readUnsigned?
  rw [digits?_append h]
  cases digits? cs with
  | none => rfl
  | some read =>
    simp only [Option.map_some, before]
    split
    · rfl
    · exact readFraction?_append h read.2

/-- A number that does not start with a sign is not negative. -/
theorem readNumber?_of_ne (hminus : cs.head? ≠ some '-') :
    readNumber? cs = readUnsigned? false cs := by
  unfold readNumber?
  split
  · exact absurd rfl hminus
  · rfl

/-- A number ends before the text behind it. -/
theorem readNumber?_append (h : Closing behind) (cs : List Char) :
    readNumber? (cs ++ behind) = (readNumber? cs).map (before behind) := by
  by_cases hminus : cs.head? = some '-'
  · obtain ⟨cs, rfl⟩ := List.head?_eq_some_iff.mp hminus
    exact readUnsigned?_append h true cs
  · rw [readNumber?_of_ne hminus, readNumber?_of_ne (mt (h.head?_append_iff (by decide)).mp hminus)]
    exact readUnsigned?_append h false cs

/-! ### Words and codes -/

/-- What is read is a word of its own, whatever stands behind it, and none of its characters closes
a lexeme. -/
def Verbatim {α : Type} (read? : List Char → Option (α × List Char)) : Prop :=
  ∀ cs a rest, read? cs = some (a, rest) →
    ∃ word, (∀ c ∈ word, ¬ Closes c) ∧ cs = word ++ rest ∧
      ∀ rest', read? (word ++ rest') = some (a, rest')

/-- A word that has no closing character ends before the text behind it. -/
theorem eq_append_of_closing {word : List Char} (h : Closing behind)
    (hword : ∀ c ∈ word, ¬ Closes c) (heq : cs ++ behind = word ++ rest) :
    ∃ rest', cs = word ++ rest' ∧ rest = rest' ++ behind := by
  obtain ⟨more, rfl, rfl⟩ | ⟨rest', rfl, hrest⟩ := List.append_eq_append_iff.mp heq
  · cases more with
    | nil => exact ⟨[], by simp, rfl⟩
    | cons c more =>
      exact absurd h.head (hword c (List.mem_append_right cs List.mem_cons_self))
  · exact ⟨rest', rfl, hrest⟩

/-- Closing text behind changes nothing for a reader that goes by the characters it takes. -/
theorem Verbatim.append {α : Type} {read? : List Char → Option (α × List Char)}
    (hread : Verbatim read?) (h : Closing behind) (cs : List Char) :
    read? (cs ++ behind) = (read? cs).map (before behind) := by
  apply Option.ext
  rintro ⟨a, rest⟩
  rw [Option.map_eq_some_iff]
  constructor
  -- what was taken ends before the text behind, for it has no closing character
  · intro hsome
    obtain ⟨word, hword, heq, hagain⟩ := hread _ _ _ hsome
    obtain ⟨rest', rfl, rfl⟩ := eq_append_of_closing h hword heq
    exact ⟨(a, rest'), hagain rest', rfl⟩
  · rintro ⟨⟨a', rest'⟩, hsome, heq⟩
    cases heq
    obtain ⟨word, hword, rfl, hagain⟩ := hread _ _ _ hsome
    rw [List.append_assoc]
    exact hagain _

/-- The words are fixed texts. -/
theorem verbatim_readWord? : Verbatim readWord? := by
  intro cs a rest h
  unfold readWord? at h
  split at h <;> cases h
  · exact ⟨['n', 'u', 'l', 'l'], by simp [Closes], rfl, fun _ => rfl⟩
  · exact ⟨['t', 'r', 'u', 'e'], by simp [Closes], rfl, fun _ => rfl⟩
  · exact ⟨['f', 'a', 'l', 's', 'e'], by simp [Closes], rfl, fun _ => rfl⟩

theorem not_closes_of_hexValue? {n : Nat} (h : hexValue? c = some n) : ¬ Closes c := by
  intro hc
  rw [hc.hexValue?] at h
  cases h

/-- A code is its four digits. -/
theorem verbatim_readCode? : Verbatim readCode? := by
  intro cs n rest h
  unfold readCode? at h
  split at h
  · split at h
    · rename_i a b c d ha hb hc hd
      cases h
      refine ⟨[_, _, _, _], ?_, rfl, fun rest' => ?_⟩
      · simp only [List.forall_mem_cons]
        exact ⟨not_closes_of_hexValue? ha, not_closes_of_hexValue? hb, not_closes_of_hexValue? hc,
          not_closes_of_hexValue? hd, nofun⟩
      · simp only [List.cons_append, List.nil_append, readCode?, ha, hb, hc, hd]
    · cases h
  · cases h

/-- An escape takes one code, or two for a surrogate pair. -/
theorem verbatim_readUnicode? : Verbatim readUnicode? := by
  intro cs c rest h
  unfold readUnicode? at h
  split at h
  · cases h
  · rename_i n rest₁ hcode
    obtain ⟨word, hword, rfl, hagain⟩ := verbatim_readCode? _ _ _ hcode
    split at h
    -- a high surrogate needs a second escape with the low one
    · rename_i hhigh
      split at h
      · rename_i rest₂
        split at h
        · cases h
        · rename_i low rest₃ hlow
          obtain ⟨word', hword', rfl, hagain'⟩ := verbatim_readCode? _ _ _ hlow
          split at h
          · rename_i hpair
            simp only [Option.some.injEq, Prod.mk.injEq] at h
            obtain ⟨rfl, rfl⟩ := h
            refine ⟨word ++ '\\' :: 'u' :: word', ?_, by simp, fun rest' => ?_⟩
            · simp only [List.forall_mem_append, List.forall_mem_cons]
              exact ⟨hword, by decide, by decide, hword'⟩
            · rw [List.append_assoc]
              unfold readUnicode?
              rw [hagain]
              dsimp only [List.cons_append]
              rw [if_pos hhigh]
              simp only [hagain', hpair, if_true]
          · cases h
      · cases h
    · rename_i hhigh
      split at h
      · cases h
      · rename_i hlow
        cases h
        refine ⟨word, hword, rfl, fun rest' => ?_⟩
        unfold readUnicode?
        rw [hagain]
        dsimp only
        rw [if_neg hhigh, if_neg hlow]

/-! ### Texts in quotes -/

theorem not_closes_of_shortEscape? {e : Char} (h : shortEscape? e = some c) : ¬ Closes e := by
  unfold shortEscape? at h
  split at h <;> first | decide | cases h

/-- What stands behind a backslash. -/
theorem verbatim_escape : Verbatim fun cs => readChar? ('\\' :: cs) := by
  intro cs c rest h
  cases cs with
  | nil => cases h
  | cons e cs =>
    by_cases hcode : e = 'u'
    · subst hcode
      obtain ⟨word, hword, rfl, hagain⟩ := verbatim_readUnicode? _ _ _ h
      exact ⟨'u' :: word, List.forall_mem_cons.mpr ⟨by decide, hword⟩, rfl, hagain⟩
    · have hshort (cs : List Char) :
          readChar? ('\\' :: e :: cs) = (shortEscape? e).map fun c => (c, cs) := by
        unfold readChar?
        split
        · rename_i heq
          cases heq
        · rename_i heq
          cases heq
          exact absurd rfl hcode
        · rename_i heq
          cases heq
          rfl
        · rename_i hother heq
          cases heq
          exact absurd rfl (hother e cs rfl)
      obtain ⟨x, hx, heq⟩ := Option.map_eq_some_iff.mp ((hshort cs).symm.trans h)
      cases heq
      refine ⟨[e], by simpa using not_closes_of_shortEscape? hx, rfl, fun rest' => ?_⟩
      exact (hshort rest').trans (congrArg _ hx)

/-- Without a backslash a character stands for itself, unless it is a control character. -/
theorem readChar?_of_ne (hc : c ≠ '\\') (cs : List Char) :
    readChar? (c :: cs) = if c.toNat < 0x20 then none else some (c, cs) := by
  unfold readChar?
  split <;> simp_all

/-- A character within quotes is read as it is without the text behind; only an escape takes more
than one. -/
theorem readChar?_append (h : Closing behind) (c : Char) (cs : List Char) :
    readChar? (c :: cs ++ behind) = (readChar? (c :: cs)).map (before behind) := by
  by_cases hc : c = '\\'
  · subst hc
    exact verbatim_escape.append h cs
  · rw [List.cons_append, readChar?_of_ne hc, readChar?_of_ne hc]
    split <;> rfl

/-- Before the closing quotation mark a text goes on character by character. -/
theorem readString?_of_ne (hquote : cs.head? ≠ some '"') :
    readString? cs =
      (readChar? cs).bind fun read => (readString? read.2).map fun (s, rest) => (read.1 :: s, rest) := by
  rw [readString?, if_neg hquote]
  split
  · rename_i hchar
    rw [hchar]
    rfl
  · rename_i hchar
    rw [hchar]
    rfl

/-- No text in quotes ends where there is no quote. -/
theorem readString?_of_closing (h : Closing behind) : readString? behind = none := by
  -- no closing character is a quotation mark, so the text never ends
  induction behind with
  | nil =>
    rw [readString?_of_ne (by simp)]
    rfl
  | cons c behind ih =>
    have hquote : (c :: behind).head? ≠ some '"' := by
      rintro heq
      cases heq
      exact absurd h.head (by decide)
    have hbackslash : c ≠ '\\' := by
      rintro rfl
      exact absurd h.head (by decide)
    rw [readString?_of_ne hquote, readChar?_of_ne hbackslash]
    split
    · rfl
    · rw [Option.bind_some, ih h.tail]
      rfl

/-- A text in quotes ends where it does without the text behind. If it does not end, then the text
behind does not end it. -/
theorem readString?_append (h : Closing behind) (cs : List Char) :
    readString? (cs ++ behind) = (readString? cs).map (before behind) := by
  -- along the recursion of the reader, which shortens the text by a character or an escape
  match cs with
  | [] =>
    have hnil : readString? [] = none := readString?_of_closing nofun
    rw [List.nil_append, readString?_of_closing h, hnil]
    rfl
  | c :: cs =>
    by_cases hquote : c = '"'
    · subst hquote
      rw [readString?, readString?]
      rfl
    · have hhead {cs : List Char} : (c :: cs).head? ≠ some '"' := fun heq =>
        hquote (Option.some.inj heq)
      rw [readString?_of_ne hhead, List.cons_append, readString?_of_ne hhead, ← List.cons_append,
        readChar?_append h]
      cases hchar : readChar? (c :: cs) with
      | none => rfl
      | some read =>
        have hlength := readChar?_length hchar
        simp only [Option.map_some, Option.bind_some, before]
        rw [readString?_append h read.2, Option.map_map, Option.map_map]
        rfl
termination_by cs.length
decreasing_by exact readChar?_length hchar

/-! ### Lexemes -/

/-- A scalar is read as it is without the text behind. -/
theorem readScalar?_append (h : Closing behind) (c : Char) (cs : List Char) :
    readScalar? c (cs ++ behind) = (readScalar? c cs).map (before behind) := by
  unfold readScalar?
  split
  · rw [readString?_append h, Option.map_map, Option.map_map]
    rfl
  · split
    · exact readNumber?_append h (c :: cs)
    · exact verbatim_readWord?.append h (c :: cs)

/-- One lexeme is read as it is without the text behind. -/
theorem lexeme?_append (h : Closing behind) (c : Char) (cs : List Char) :
    lexeme? c (cs ++ behind) = (lexeme? c cs).map (before behind) := by
  unfold lexeme?
  split
  · rfl
  · rw [readScalar?_append h, Option.map_map, Option.map_map]
    rfl

theorem lexemes?_space (hspace : isSpace c = true) (cs : List Char) :
    lexemes? (c :: cs) = lexemes? cs := by
  rw [lexemes?, if_pos hspace]

/-- Anything else starts a lexeme, and the lexemes of the rest come after it. -/
theorem lexemes?_of_not_space (hspace : isSpace c = false) (cs : List Char) :
    lexemes? (c :: cs) =
      (lexeme? c cs).bind fun read => (lexemes? read.2).map fun ls => read.1 :: ls := by
  rw [lexemes?, if_neg (by simp [hspace])]
  split
  · rename_i hlexeme
    rw [hlexeme]
    rfl
  · rename_i hlexeme
    rw [hlexeme]
    rfl

/-- The form of `lexemes?_of_not_space` with the first lexeme at hand. -/
theorem lexemes?_lexeme {l : Lexeme} (hspace : isSpace c = false)
    (h : lexeme? c cs = some (l, rest)) :
    lexemes? (c :: cs) = (lexemes? rest).map fun ls => l :: ls := by
  rw [lexemes?_of_not_space hspace, h]
  rfl

/-- The lexemes of a text come before those of the text behind it. -/
theorem lexemes?_append (h : Closing behind) (cs : List Char) :
    lexemes? (cs ++ behind) =
      (lexemes? cs).bind fun ls => (lexemes? behind).map fun more => ls ++ more := by
  -- along the recursion of the scan, which shortens the text by a space or by a lexeme
  match cs with
  | [] =>
    rw [lexemes?, List.nil_append]
    simp
  | c :: cs =>
    cases hspace : isSpace c with
    | true =>
      rw [List.cons_append, lexemes?_space hspace, lexemes?_space hspace]
      exact lexemes?_append h cs
    | false =>
      rw [List.cons_append, lexemes?_of_not_space hspace, lexemes?_of_not_space hspace,
        lexeme?_append h]
      cases hlexeme : lexeme? c cs with
      | none => rfl
      | some read =>
        have hlength := lexeme?_length hlexeme
        simp only [Option.map_some, Option.bind_some, before]
        rw [lexemes?_append h read.2]
        cases lexemes? read.2 with
        | none => rfl
        | some ls =>
          simp only [Option.bind_some, Option.map_some, Option.map_map]
          rfl
termination_by cs.length

/-! ### Blank characters around a document -/

/-- A blank character closes a lexeme, also one that is no space of a document. -/
theorem closes_of_isBlank (h : Text.isBlank c = true) : Closes c := by
  unfold Closes
  simp only [Text.isBlank, Bool.or_eq_true, Bool.and_eq_true, decide_eq_true_eq, beq_iff_eq] at h
  omega

/-- No lexeme begins with a blank character. -/
theorem lexeme?_of_isBlank (h : Text.isBlank c = true) (cs : List Char) : lexeme? c cs = none := by
  have hsign : sign? c = none := by
    unfold sign?
    split <;> first | rfl | exact absurd h (by decide)
  have hquote : c ≠ '"' := by
    rintro rfl
    exact absurd h (by decide)
  have hnumber : ¬ (c = '-' ∨ c.isDigit = true) := by
    rintro (rfl | hdigit)
    · exact absurd h (by decide)
    · rw [(closes_of_isBlank h).not_isDigit] at hdigit
      cases hdigit
  have hword : readWord? (c :: cs) = none := by
    unfold readWord?
    split <;> first | rfl | (rename_i heq; cases heq; exact absurd h (by decide))
  rw [lexeme?, hsign]
  dsimp only
  rw [readScalar?, if_neg hquote, if_neg hnumber, hword]
  rfl

/-- A document that scans may lose a blank at its start: the blank was a space, as no lexeme starts
with one. -/
theorem lexemes?_cons_blank {ls : List Lexeme} (hc : Text.isBlank c = true)
    (h : lexemes? (c :: cs) = some ls) : lexemes? cs = some ls := by
  cases hspace : isSpace c with
  | true => rwa [lexemes?_space hspace] at h
  | false =>
    rw [lexemes?_of_not_space hspace, lexeme?_of_isBlank hc] at h
    cases h

/-- Blanks at the start of a document change nothing. -/
theorem lexemes?_trimStart {ls : List Lexeme} (h : lexemes? cs = some ls) :
    lexemes? (Text.trimStart cs) = some ls := by
  induction cs with
  | nil => exact h
  | cons c cs ih =>
    unfold Text.trimStart
    rw [List.dropWhile_cons]
    split
    · rename_i hc
      exact ih (lexemes?_cons_blank hc h)
    · exact h

/-- Blank characters alone have no lexemes. -/
theorem lexemes?_of_blank {ls : List Lexeme} (hblank : ∀ c ∈ cs, Text.isBlank c = true)
    (h : lexemes? cs = some ls) : ls = [] := by
  induction cs with
  | nil =>
    rw [lexemes?] at h
    exact (Option.some.inj h).symm
  | cons c cs ih =>
    obtain ⟨hc, hcs⟩ := List.forall_mem_cons.mp hblank
    exact ih hcs (lexemes?_cons_blank hc h)

/-- Trimming the end of a text takes blanks away and nothing else. -/
theorem exists_trimEnd (cs : List Char) :
    ∃ blank, cs = Text.trimEnd cs ++ blank ∧ ∀ c ∈ blank, Text.isBlank c = true := by
  refine ⟨(cs.reverse.takeWhile Text.isBlank).reverse, ?_, fun c hc => ?_⟩
  · rw [Text.trimEnd, ← List.reverse_append, List.takeWhile_append_dropWhile, List.reverse_reverse]
  · exact List.all_eq_true.mp List.all_takeWhile c (List.mem_reverse.mp hc)

/-- Blanks at the end of a document change nothing, since they close the last lexeme and are lexemes
of nothing. -/
theorem lexemes?_trimEnd {ls : List Lexeme} (h : lexemes? cs = some ls) :
    lexemes? (Text.trimEnd cs) = some ls := by
  obtain ⟨blank, hcs, hblank⟩ := exists_trimEnd cs
  have happend := lexemes?_append (fun c hc => closes_of_isBlank (hblank c hc)) (Text.trimEnd cs)
  rw [← hcs, h] at happend
  obtain ⟨ls', hls', happend⟩ := Option.bind_eq_some_iff.mp happend.symm
  obtain ⟨more, hmore, heq⟩ := Option.map_eq_some_iff.mp happend
  rw [hls', ← heq, lexemes?_of_blank hblank hmore, List.append_nil]

/-- A document is the same without the blank characters around it. -/
theorem read?_trim {j : Json} (h : read? (String.ofList cs) = some j) :
    read? (String.ofList (Text.trim cs)) = some j := by
  unfold read? at *
  rw [String.toList_ofList] at *
  obtain ⟨ls, hls, hread⟩ := Option.bind_eq_some_iff.mp h
  rw [Text.trim, lexemes?_trimEnd (lexemes?_trimStart hls)]
  exact hread

/-! ### Documents within others -/

/-- An array that is not empty has a value of its own behind the bracket. -/
theorem readValue?_openArray (stack : List Frame) {ls : List Lexeme}
    (h : ∀ rest, ls ≠ .closeArray :: rest) :
    readValue? stack (.openArray :: ls) = readValue? (.array [] :: stack) ls := by
  rw [readValue?]
  exact h

mutual

/-- A value that is read alone is read as part of what is open around it. -/
theorem readValue?_within {stack : List Frame} {ls : List Lexeme} {j : Json}
    (h : readValue? stack ls = some j) (outer : List Frame) (more : List Lexeme) :
    readValue? (stack ++ outer) (ls ++ more) = readAfter? outer j more := by
  -- The cases are the ways to start a value. In each the lexemes at the front decide, so more
  -- lexemes behind them and more frames below are carried along.
  unfold readValue? at h
  split at h
  · rw [List.cons_append, readValue?]
    exact readAfter?_within h outer more
  · rw [List.cons_append, List.cons_append, readValue?]
    exact readAfter?_within h outer more
  · rename_i rest hclose
    cases rest with
    | nil =>
      unfold readValue? at h
      cases h
    | cons l rest =>
      have hopen : ∀ rest', l :: rest ++ more ≠ .closeArray :: rest' := by
        intro rest' heq
        cases heq
        exact hclose rest rfl
      rw [List.cons_append, readValue?_openArray _ hopen]
      exact readValue?_within h outer more
  · rw [List.cons_append, List.cons_append, readValue?]
    exact readAfter?_within h outer more
  · rw [List.cons_append, List.cons_append, List.cons_append, readValue?]
    exact readValue?_within h outer more
  · cases h
termination_by ls.length
decreasing_by all_goals subst_vars; simp only [List.length_cons]; omega

/-- What is open around a value stays open until the value has ended. -/
theorem readAfter?_within {stack : List Frame} {k : Json} {ls : List Lexeme} {j : Json}
    (h : readAfter? stack k ls = some j) (outer : List Frame) (more : List Lexeme) :
    readAfter? (stack ++ outer) k (ls ++ more) = readAfter? outer j more := by
  -- without frames the value ends the document, otherwise the next lexeme has to fit the innermost
  -- frame
  unfold readAfter? at h
  split at h
  · split at h
    · rename_i hstack
      cases h
      rw [List.isEmpty_iff.mp hstack]
      rfl
    · cases h
  · split at h
    · rw [List.cons_append, List.cons_append, readAfter?]
      exact readValue?_within h outer more
    · rw [List.cons_append, List.cons_append, List.cons_append, List.cons_append, readAfter?]
      exact readValue?_within h outer more
    · cases h
  · split at h
    · rw [List.cons_append, List.cons_append, readAfter?]
      exact readAfter?_within h outer more
    · cases h
  · split at h
    · rw [List.cons_append, List.cons_append, readAfter?]
      exact readAfter?_within h outer more
    · cases h
  · cases h
termination_by ls.length
decreasing_by all_goals subst_vars; simp only [List.length_cons]; omega

end

theorem document?_nil : document? [] = none := by
  unfold document? readValue?
  exact ite_self none

/-- A closing brace opens nothing, so it does not add to the depth. -/
theorem depth_closeObject (ls : List Lexeme) : depth (ls ++ [Lexeme.closeObject]) = depth ls := by
  induction ls with
  | nil => rfl
  | cons l ls ih => cases l <;> simp only [List.cons_append, depth, ih]

/-- An object of one field is read if its value is, unless the object is one level too deep. -/
theorem document?_field {ls : List Lexeme} {j : Json} (h : document? ls = some j) (name : String) :
    document? (.openObject :: .scalar (.text name) :: .colon :: (ls ++ [Lexeme.closeObject])) =
      if maxDepth ≤ depth ls then none else some (.object [(name, j)]) := by
  -- 1. the value is read in the frame of the object as it is read alone
  have hvalue : readValue? [] ls = some j := by
    unfold document? at h
    split at h
    · exact h
    · cases h
  have hobject : readValue? [] (.openObject :: .scalar (.text name) :: .colon ::
      (ls ++ [Lexeme.closeObject])) = some (.object [(name, j)]) := by
    rw [readValue?, ← List.nil_append [Frame.object [] name], readValue?_within hvalue, readAfter?,
      readAfter?]
    rfl
  -- 2. the object is one level deeper than its value
  have hdepth :
      depth (.openObject :: .scalar (.text name) :: .colon :: (ls ++ [Lexeme.closeObject])) =
      depth ls + 1 :=
    congrArg (· + 1) (depth_closeObject ls)
  rw [document?, hdepth, hobject]
  split <;> split <;> first | rfl | omega

end Json
end PixelCalc
