import PixelCalc.Syntax.Scan

/-!
# Where tokens end

To find the end of a token, scanning looks at what follows it, but no further than to the next
delimiter: a space, a comma, a bracket or any other character that continues no token. So what
stands behind a delimiter may be exchanged without a change to the tokens before it.

- `isDelimiter`, `Ends`: characters that continue no token, and texts that begin with one, if with
  any.
- `KeepsTokens φ`: `φ` leaves a text as it is up to some delimiter.
- `tokenAt_keepsTokens`: such a `φ` changes the text behind a token and not the token.
- `scan_append`: the tokens of a text before a delimiter are its tokens when it stands alone.
-/

namespace PixelCalc
namespace Scan

/-! ### Delimiters -/

/-- The second characters of signs that have two. -/
def secondSigns : List Char :=
  ['.', '*', '=', '&', '|']

/-- A character that continues no token, whatever the token. -/
def isDelimiter (c : Char) : Bool :=
  !secondSigns.contains c && !c.isDigit && !Text.isAlphabetic c

/-- No token continues into the text. -/
def Ends (cs : List Char) : Prop :=
  ∀ c ∈ cs.head?, isDelimiter c = true

/-- `p` holds of no delimiter. -/
def Continues (p : Char → Bool) : Prop :=
  ∀ c, isDelimiter c = true → p c = false

variable {p : Char → Bool} {c d : Char} {cs rest behind : List Char}

theorem continues_isDigit : Continues Char.isDigit := fun c hc => by
  simp only [isDelimiter, Bool.and_eq_true, Bool.not_eq_true'] at hc
  exact hc.1.2

theorem continues_isAlphabetic : Continues Text.isAlphabetic := fun c hc => by
  simp only [isDelimiter, Bool.and_eq_true, Bool.not_eq_true'] at hc
  exact hc.2

theorem isDelimiter_second {pair : Pair} (h : pair? c = some pair) :
    isDelimiter pair.second = false := by
  unfold pair? at h
  split at h <;> cases h <;> decide

theorem ends_nil : Ends [] :=
  fun _ => nofun

theorem ends_cons_iff : Ends (c :: rest) ↔ isDelimiter c = true :=
  ⟨fun h => h c rfl, fun h _ hmem => Option.some.inj hmem ▸ h⟩

theorem Ends.head?_ne (h : Ends cs) (hd : isDelimiter d = false) : cs.head? ≠ some d := by
  intro hhead
  rw [h d hhead] at hd
  cases hd

/-- A test that fails on delimiters fails on the first character. -/
theorem Ends.head?_any (h : Ends cs) (hp : Continues p) : cs.head?.any p = false := by
  cases cs with
  | nil => rfl
  | cons c rest => exact hp c (ends_cons_iff.mp h)

/-- Nothing of the text continues the token before it. -/
theorem Ends.takeWhile (h : Ends cs) (hp : Continues p) : cs.takeWhile p = [] := by
  cases cs with
  | nil => rfl
  | cons c rest => rw [List.takeWhile_cons_of_neg (Bool.eq_false_iff.mp (hp c (ends_cons_iff.mp h)))]

theorem Ends.dropWhile (h : Ends cs) (hp : Continues p) : cs.dropWhile p = cs := by
  cases cs with
  | nil => rfl
  | cons c rest => rw [List.dropWhile_cons_of_neg (Bool.eq_false_iff.mp (hp c (ends_cons_iff.mp h)))]

/-! ### Exchanging the text behind a delimiter -/

/-- `φ` copies a text character by character, at least up to a delimiter. -/
def KeepsTokens (φ : List Char → List Char) : Prop :=
  ∀ cs, (∃ c rest, cs = c :: rest ∧ φ cs = c :: φ rest) ∨ Ends cs ∧ Ends (φ cs)

/-- What is put after a text begins with a delimiter. -/
theorem keepsTokens_append (h : Ends behind) : KeepsTokens (· ++ behind)
  | [] => .inr ⟨ends_nil, h⟩
  | c :: rest => .inl ⟨c, rest, rfl, rfl⟩

variable {φ : List Char → List Char}

namespace KeepsTokens

/-- A look at the first character sees no difference, unless it can tell delimiters apart. -/
theorem head?_any (h : KeepsTokens φ) (hp : Continues p) (cs : List Char) :
    (φ cs).head?.any p = cs.head?.any p := by
  rcases h cs with ⟨c, rest, rfl, hφ⟩ | ⟨hcs, hφ⟩
  · rw [hφ]
    rfl
  · rw [hcs.head?_any hp, hφ.head?_any hp]

/-- The same for a look for one character that is no delimiter. -/
theorem head?_eq_iff (h : KeepsTokens φ) (hd : isDelimiter d = false) (cs : List Char) :
    (φ cs).head? = some d ↔ cs.head? = some d := by
  rcases h cs with ⟨c, rest, rfl, hφ⟩ | ⟨hcs, hφ⟩
  · rw [hφ]
    rfl
  · exact iff_of_false (hφ.head?_ne hd) (hcs.head?_ne hd)

/-- A character that continues a token is copied, and the text behind it is exchanged. -/
theorem tail_eq (h : KeepsTokens φ) (hd : isDelimiter d = false) (hhead : cs.head? = some d) :
    (φ cs).tail = φ cs.tail := by
  rcases h cs with ⟨c, rest, rfl, hφ⟩ | ⟨hcs, -⟩
  · rw [hφ]
    rfl
  · exact absurd hhead (hcs.head?_ne hd)

/-- A token that is taken while a test holds ends before the first delimiter, and up to there
nothing was exchanged. -/
theorem takeWhile (h : KeepsTokens φ) (hp : Continues p) (cs : List Char) :
    (φ cs).takeWhile p = cs.takeWhile p := by
  -- each step either keeps the first character, or is at a delimiter where both texts end the token
  induction cs with
  | nil =>
    rcases h [] with ⟨c, rest, heq, -⟩ | ⟨-, hφ⟩
    · cases heq
    · rw [hφ.takeWhile hp]
      rfl
  | cons c rest ih =>
    rcases h (c :: rest) with ⟨_, _, heq, hφ⟩ | ⟨hcs, hφ⟩
    · cases heq
      rw [hφ, List.takeWhile_cons, List.takeWhile_cons, ih]
    · rw [hcs.takeWhile hp, hφ.takeWhile hp]

/-- What is left after such a token is the exchanged rest. -/
theorem dropWhile (h : KeepsTokens φ) (hp : Continues p) (cs : List Char) :
    (φ cs).dropWhile p = φ (cs.dropWhile p) := by
  induction cs with
  | nil =>
    rcases h [] with ⟨c, rest, heq, -⟩ | ⟨-, hφ⟩
    · cases heq
    · exact hφ.dropWhile hp
  | cons c rest ih =>
    rcases h (c :: rest) with ⟨_, _, heq, hφ⟩ | ⟨hcs, hφ⟩
    · cases heq
      rw [hφ, List.dropWhile_cons, List.dropWhile_cons, ih]
      split
      · rfl
      · exact hφ.symm
    · rw [hcs.dropWhile hp, hφ.dropWhile hp]

end KeepsTokens

/-! ### Numbers -/

/-- Text that does not begin with a point has no fraction at its front. -/
theorem fraction_of_ne_point (h : cs.head? ≠ some '.') : fraction cs = ([], cs) := by
  unfold fraction
  split
  · exact absurd rfl h
  · exact absurd rfl h
  · rfl

/-- A point before a delimiter belongs to the number. -/
theorem fraction_point_of_ends (h : Ends rest) : fraction ('.' :: rest) = ([], rest) := by
  cases rest with
  | nil => rfl
  | cons c rest =>
    have hc := ends_cons_iff.mp h
    have hpoint : c ≠ '.' := fun heq => h.head?_ne (d := '.') (by decide) (congrArg some heq)
    simp [fraction, continues_isDigit c hc, continues_isAlphabetic c hc, hpoint]

/-- The fraction of a number ends before a delimiter, so it is found where `φ` changes nothing. -/
theorem fraction_keepsTokens (h : KeepsTokens φ) (cs : List Char) :
    fraction (φ cs) = ((fraction cs).1, φ (fraction cs).2) := by
  rcases h cs with ⟨c, rest, rfl, hφ⟩ | ⟨hcs, hφ⟩
  · by_cases hpoint : c = '.'
    · subst hpoint
      rw [hφ]
      rcases h rest with ⟨d, rest', rfl, hφ'⟩ | ⟨hrest, hφ'⟩
      · -- what the point means depends on the character after it, which is copied
        have htake := h.takeWhile continues_isDigit (d :: rest')
        have hdrop := h.dropWhile continues_isDigit (d :: rest')
        rw [hφ'] at htake hdrop ⊢
        rw [fraction, fraction]
        by_cases hdigit : d.isDigit = true
        · rw [if_pos hdigit, if_pos hdigit, htake, hdrop]
        · rw [if_neg hdigit, if_neg hdigit]
          by_cases hleft : d = '.' ∨ Text.isAlphabetic d = true
          · rw [if_pos hleft, if_pos hleft, hφ, hφ']
          · rw [if_neg hleft, if_neg hleft, hφ']
      · rw [fraction_point_of_ends hrest, fraction_point_of_ends hφ']
    · have hhead {rest : List Char} : (c :: rest).head? ≠ some '.' :=
        fun heq => hpoint (Option.some.inj heq)
      rw [hφ, fraction_of_ne_point hhead, fraction_of_ne_point hhead, hφ]
  · have hpoint : isDelimiter '.' = false := by decide
    rw [fraction_of_ne_point (hcs.head?_ne hpoint), fraction_of_ne_point (hφ.head?_ne hpoint)]

/-- A number looks at digits and points, none of which is a delimiter. -/
theorem scanNumber_keepsTokens (h : KeepsTokens φ) (cs : List Char) :
    scanNumber (φ cs) = ((scanNumber cs).1, φ (scanNumber cs).2) := by
  unfold scanNumber
  rw [h.takeWhile continues_isDigit, h.dropWhile continues_isDigit, fraction_keepsTokens h]

/-! ### Tokens -/

/-- The step with the text behind the token exchanged. -/
def Step.mapRest (φ : List Char → List Char) : Step → Step
  | .done => .done
  | .stop e => .stop e
  | .token t rest => .token t (φ rest)

/-- Whether a literal is a number is decided by its characters, so the text behind may be exchanged.
-/
theorem ofReading_mapRest (reading : Reading) (rest : List Char) :
    Step.ofReading reading (φ rest) = (Step.ofReading reading rest).mapRest φ := by
  cases reading <;> rfl

/-- Reading a number changes with the text behind it in the rest only. -/
theorem number_mapRest (h : KeepsTokens φ) (negative : Bool) (cs : List Char) :
    Step.number negative (φ cs) = (Step.number negative cs).mapRest φ := by
  unfold Step.number Step.mapRest
  rw [scanNumber_keepsTokens h]

/-- A digit before a text is a digit before the exchanged text. -/
theorem scanNumber_cons_keepsTokens (h : KeepsTokens φ) (hc : c.isDigit = true) (cs : List Char) :
    scanNumber (c :: φ cs) = ((scanNumber (c :: cs)).1, φ (scanNumber (c :: cs)).2) := by
  unfold scanNumber
  rw [List.takeWhile_cons_of_pos hc, List.takeWhile_cons_of_pos hc, List.dropWhile_cons_of_pos hc,
    List.dropWhile_cons_of_pos hc, h.takeWhile continues_isDigit, h.dropWhile continues_isDigit,
    fraction_keepsTokens h]

/-- The token at the front of a text does not depend on what stands behind a delimiter. -/
theorem tokenAt_keepsTokens (h : KeepsTokens φ) (afterValue : Bool) (c : Char) (cs : List Char) :
    tokenAt afterValue c (φ cs) = (tokenAt afterValue c cs).mapRest φ := by
  unfold tokenAt
  split
  · rfl
  · split
    · -- a sign that may have a second character
      rename_i pair hpair
      have hsecond := isDelimiter_second hpair
      simp only [h.head?_eq_iff hsecond]
      split
      · rename_i hhead
        rw [h.tail_eq hsecond hhead, ofReading_mapRest]
      · rw [ofReading_mapRest]
    · rw [h.head?_any continues_isDigit]
      split
      · split
        · exact number_mapRest h true cs
        · rfl
      · split
        · rename_i halpha
          rw [List.takeWhile_cons_of_pos halpha, List.takeWhile_cons_of_pos halpha,
            List.dropWhile_cons_of_pos halpha, List.dropWhile_cons_of_pos halpha,
            h.takeWhile continues_isAlphabetic, h.dropWhile continues_isAlphabetic]
          rfl
        · split
          · rename_i hdigit
            unfold Step.number Step.mapRest
            rw [scanNumber_cons_keepsTokens h hdigit]
          · rfl

/-- A literal is a number or an error, never the end of the text. -/
theorem ofReading_ne_done (reading : Reading) (rest : List Char) :
    Step.ofReading reading rest ≠ .done := by
  cases reading <;> nofun

/-- Where there is a character, the scan has not ended. -/
theorem tokenAt_ne_done (afterValue : Bool) (c : Char) (cs : List Char) :
    tokenAt afterValue c cs ≠ .done := by
  unfold tokenAt
  -- in the order of the scan: marks, signs with a second character, a minus, names, numbers
  split
  · nofun
  · split
    · split
      · exact ofReading_ne_done _ _
      · exact ofReading_ne_done _ _
    · split
      · split <;> nofun
      · split
        · nofun
        · split <;> nofun

/-! ### Characters that begin a number or a name -/

/-- No digit is a letter, so numbers and names start differently. -/
theorem not_isAlphabetic_of_isDigit (h : c.isDigit = true) : Text.isAlphabetic c = false := by
  have hdigit : 48 ≤ c.toNat ∧ c.toNat ≤ 57 := by
    simpa [Char.isDigit, UInt32.le_iff_toNat_le] using h
  rw [Text.isAlphabetic, Text.alphabeticRanges, Text.inRanges_of_lt (by omega),
    decide_eq_false_iff_not]
  omega

/-- Letters and digits begin no sign. -/
theorem begins_no_sign (h : Text.isAlphabetic c = true ∨ c.isDigit = true) :
    c ≠ ' ' ∧ mark? c = none ∧ pair? c = none ∧ c ≠ '-' := by
  refine ⟨?_, ?_, ?_, ?_⟩
  · rintro rfl
    exact absurd h (by decide)
  · unfold mark?
    split <;> first | rfl | exact absurd h (by decide)
  · unfold pair?
    split <;> first | rfl | exact absurd h (by decide)
  · rintro rfl
    exact absurd h (by decide)

/-- A digit starts a number wherever it stands. -/
theorem tokenAt_of_isDigit (h : c.isDigit = true) (afterValue : Bool) (cs : List Char) :
    tokenAt afterValue c cs = Step.number false (c :: cs) := by
  obtain ⟨-, hmark, hpair, hminus⟩ := begins_no_sign (.inr h)
  unfold tokenAt
  rw [hmark, hpair]
  show (if c = '-' then _ else if Text.isAlphabetic c then _ else if c.isDigit then _ else _) = _
  rw [if_neg hminus, not_isAlphabetic_of_isDigit h, if_neg Bool.false_ne_true, if_pos h]

/-- A letter starts a name, which goes on as long as there are letters. -/
theorem tokenAt_of_isAlphabetic (h : Text.isAlphabetic c = true) (afterValue : Bool)
    (cs : List Char) :
    tokenAt afterValue c cs =
      .token (.name (String.ofList ((c :: cs).takeWhile Text.isAlphabetic)))
        ((c :: cs).dropWhile Text.isAlphabetic) := by
  obtain ⟨-, hmark, hpair, hminus⟩ := begins_no_sign (.inl h)
  unfold tokenAt
  rw [hmark, hpair]
  show (if c = '-' then _ else if Text.isAlphabetic c then _ else _) = _
  rw [if_neg hminus, if_pos h]

/-! ### Texts one after the other -/

variable {afterValue : Bool} {tokens : List Token}

theorem next_space (afterValue : Bool) (cs : List Char) :
    next afterValue (' ' :: cs) = next afterValue cs :=
  rfl

theorem next_of_ne_space (h : c ≠ ' ') (afterValue : Bool) (cs : List Char) :
    next afterValue (c :: cs) = tokenAt afterValue c cs :=
  if_neg h

/-- Scanning goes on behind a text of spaces, and else stops or goes on where it did without the
text behind it. -/
theorem next_append (h : Ends behind) (afterValue : Bool) (cs : List Char) :
    next afterValue (cs ++ behind) =
      match next afterValue cs with
      | .done => next afterValue behind
      | step => step.mapRest (· ++ behind) := by
  induction cs with
  | nil => rfl
  | cons c cs ih =>
    by_cases hspace : c = ' '
    · subst hspace
      exact ih
    · rw [List.cons_append, next_of_ne_space hspace, next_of_ne_space hspace,
        tokenAt_keepsTokens (keepsTokens_append h)]
      cases hstep : tokenAt afterValue c cs with
      | done => exact absurd hstep (tokenAt_ne_done afterValue c cs)
      | _ => rfl

/-- The tokens of a text are its first one and those of the text behind it. -/
theorem scan_eq (afterValue : Bool) (cs : List Char) :
    scan afterValue cs =
      match next afterValue cs with
      | .done => ⟨[], none⟩
      | .stop e => ⟨[], some e⟩
      | .token t rest =>
        ⟨t :: (scan t.endsValue rest).tokens, (scan t.endsValue rest).error?⟩ := by
  rw [scan]
  split <;> rename_i h <;> rw [h]

/-- A scan puts the first token before those of the rest. The kind of the token decides how a sign
after it is read. -/
theorem scan_of_token {t : Token} (h : next afterValue cs = .token t rest) :
    scan afterValue cs =
      ⟨t :: (scan t.endsValue rest).tokens, (scan t.endsValue rest).error?⟩ := by
  rw [scan_eq, h]

theorem scan_nil (afterValue : Bool) : scan afterValue [] = ⟨[], none⟩ := by
  rw [scan_eq]
  rfl

theorem scan_space (afterValue : Bool) (cs : List Char) :
    scan afterValue (' ' :: cs) = scan afterValue cs := by
  rw [scan_eq, next_space, ← scan_eq]

/-- Whether a value ends before the text that follows tokens. -/
def endsValueAfter (afterValue : Bool) (tokens : List Token) : Bool :=
  tokens.foldl (fun _ t => t.endsValue) afterValue

/-- A text before a delimiter has the tokens that it has alone, and behind it scanning goes on as
its last token says. -/
theorem scan_append (h : Ends behind) (hscan : scan afterValue cs = ⟨tokens, none⟩) :
    scan afterValue (cs ++ behind) =
      ⟨tokens ++ (scan (endsValueAfter afterValue tokens) behind).tokens,
        (scan (endsValueAfter afterValue tokens) behind).error?⟩ := by
  have hnext := next_append h afterValue cs
  -- Induction on the tokens of the first text. With none left the scan stands at the text behind,
  -- and it knows whether the last token was a value.
  induction tokens generalizing afterValue cs with
  | nil =>
    rw [scan_eq] at hscan
    cases hstep : next afterValue cs with
    | done =>
      rw [hstep] at hnext
      rw [scan_eq, hnext, ← scan_eq]
      rfl
    | _ =>
      rw [hstep] at hscan
      cases hscan
  | cons t tokens ih =>
    rw [scan_eq] at hscan
    cases hstep : next afterValue cs with
    | token t' rest =>
      rw [hstep] at hscan hnext
      obtain ⟨⟨rfl, htokens⟩, herror⟩ : (t' = t ∧ _ = tokens) ∧ _ = none := by
        simpa using hscan
      have hrest : scan t'.endsValue rest = ⟨tokens, none⟩ :=
        congr (congrArg Tokens.mk htokens) herror
      rw [scan_of_token hnext, ih hrest (next_append h t'.endsValue rest)]
      rfl
    | _ =>
      rw [hstep] at hscan
      cases hscan

end Scan

/-- A source has tokens iff its scan meets no error. -/
theorem tokenize_eq_ok_iff {source : String} {tokens : List Token} :
    tokenize source = .ok tokens ↔ Scan.scan false source.toList = ⟨tokens, none⟩ := by
  unfold tokenize Scan.ofSource
  generalize Scan.scan false source.toList = scanned
  obtain ⟨scannedTokens, error?⟩ := scanned
  cases error? <;> simp

end PixelCalc
