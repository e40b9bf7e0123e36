import PixelCalc.Proofs.Syntax.Lookahead

/-!
# The alphabet of expressions

Whether a text can be scanned depends on its characters alone. Those of the alphabet may stand
anywhere, `!` only before `=`, and any other one is an error in its place, however the tokens around
it are read. Numbers are never an error: what is read as one is always a literal.

- `isReadable`, `refusal`: the alphabet, and the error of a character that is not in it.
- `refusal?`: the error of the leftmost such character of a text; `refusal?_eq_some_iff` says what
  leftmost means.
- `scan_error`: the error of a scan is that one, whatever comes before the text.
- `Literal`, `scan_literal`: the texts that numbers are read from.
- `tokenize_alphabet`: the sources that have tokens, and the error of those that have none.
-/

namespace PixelCalc
namespace Scan

/-! ### The alphabet -/

/-- The signs that may stand anywhere. -/
def signs : List Char :=
  ['(', ')', '[', ']', ',', '.', ':', '+', '-', '*', '/', '%', '^', '=', '<', '>']

/-- The character belongs to the language where `next?` is the one behind it. -/
def isReadable (c : Char) (next? : Option Char) : Bool :=
  c = ' ' || signs.contains c || Text.isAlphabetic c || c.isDigit || (c = '!' && next? = some '=')

/-- The error of a character that does not belong to the language. -/
def refusal (c : Char) (next? : Option Char) : SyntaxError :=
  match c with
  | '!' => .unsupported "!"
  | '&' => .unsupported (if next? = some '&' then "&&" else "&")
  | '|' => .unsupported (if next? = some '|' then "||" else "|")
  | c => .unexpected c

/-- The error of the leftmost character that does not belong to the language. -/
def refusal? : List Char → Option SyntaxError
  | [] => none
  | c :: cs => if isReadable c cs.head? then refusal? cs else some (refusal c cs.head?)

/-- All characters of `before` belong to the language when `after` stands behind them. -/
def Readable (before after : List Char) : Prop :=
  ∀ earlier c later, before = earlier ++ c :: later → isReadable c (later ++ after).head? = true

variable {p : Char → Bool} {c d : Char} {cs rest before after : List Char} {t : Token}
  {e : SyntaxError} {afterValue : Bool} {next? : Option Char}

theorem readable_nil : Readable [] after := by
  intro earlier c later h
  simp at h

/-- Whether a text can be read is decided character by character, with one character of look-ahead.
-/
theorem readable_cons_iff :
    Readable (c :: before) after ↔
      isReadable c (before ++ after).head? = true ∧ Readable before after := by
  constructor
  · intro h
    exact ⟨h [] c before rfl, fun earlier d later heq => h (c :: earlier) d later (by rw [heq]; rfl)⟩
  · rintro ⟨hc, hbefore⟩ (_ | ⟨d, earlier⟩) c' later heq
    · cases heq
      exact hc
    · cases heq
      exact hbefore earlier c' later rfl

instance decidableReadable : ∀ before after, Decidable (Readable before after)
  | [], _ => .isTrue readable_nil
  | _ :: before, after =>
    have := decidableReadable before after
    decidable_of_iff _ readable_cons_iff.symm

/-- Nothing is refused exactly if every character belongs to the language. -/
theorem refusal?_eq_none_iff : refusal? cs = none ↔ Readable cs [] := by
  induction cs with
  | nil => exact iff_of_true rfl readable_nil
  | cons c cs ih =>
    rw [readable_cons_iff, List.append_nil, ← ih, refusal?]
    split <;> simp_all

/-- The character refused is the leftmost one that does not belong to the language. -/
theorem refusal?_eq_some_iff :
    refusal? cs = some e ↔ ∃ before c after, cs = before ++ c :: after ∧
      Readable before (c :: after) ∧ isReadable c after.head? = false ∧ e = refusal c after.head? := by
  constructor
  · intro h
    induction cs with
    | nil => cases h
    | cons c cs ih =>
      rw [refusal?] at h
      split at h
      · rename_i hc
        obtain ⟨before, d, after, rfl, hbefore, hd, he⟩ := ih h
        exact ⟨c :: before, d, after, rfl, readable_cons_iff.mpr ⟨hc, hbefore⟩, hd, he⟩
      · rename_i hc
        exact ⟨[], c, cs, rfl, readable_nil, Bool.eq_false_iff.mpr hc, (Option.some.inj h).symm⟩
  · rintro ⟨before, c, after, rfl, hbefore, hc, rfl⟩
    induction before with
    | nil => exact if_neg (Bool.eq_false_iff.mp hc)
    | cons d before ih =>
      obtain ⟨hd, hbefore⟩ := readable_cons_iff.mp hbefore
      rw [List.cons_append, refusal?, if_pos hd, ih hbefore]

/-! ### Characters that are read -/

theorem isReadable_of_mem (h : c ∈ signs) : isReadable c next? = true := by
  simp [isReadable, h]

theorem isReadable_of_isAlphabetic (h : Text.isAlphabetic c = true) :
    isReadable c next? = true := by
  simp [isReadable, h]

theorem isReadable_of_isDigit (h : c.isDigit = true) : isReadable c next? = true := by
  simp [isReadable, h]

theorem refusal?_of_readable (h : isReadable c cs.head? = true) : refusal? (c :: cs) = refusal? cs :=
  if_pos h

theorem refusal?_of_unreadable (h : isReadable c cs.head? = false) :
    refusal? (c :: cs) = some (refusal c cs.head?) :=
  if_neg (Bool.eq_false_iff.mp h)

theorem refusal?_of_mem (h : c ∈ signs) : refusal? (c :: cs) = refusal? cs :=
  refusal?_of_readable (isReadable_of_mem h)

/-- Characters that are read as part of a number or a name are not refused. -/
theorem refusal?_dropWhile (hp : ∀ {c next?}, p c = true → isReadable c next? = true)
    (cs : List Char) : refusal? (cs.dropWhile p) = refusal? cs := by
  induction cs with
  | nil => rfl
  | cons c cs ih =>
    rw [List.dropWhile_cons]
    split
    · rename_i hc
      rw [ih, refusal?_of_readable (hp hc)]
    · rfl

/-- Nothing in a fraction is refused: digits and points are readable. -/
theorem refusal?_fraction (cs : List Char) : refusal? (fraction cs).2 = refusal? cs := by
  have hpoint : '.' ∈ signs := by decide
  unfold fraction
  split
  · split
    · rw [refusal?_dropWhile isReadable_of_isDigit, refusal?_of_mem hpoint]
    · split
      · rfl
      · rw [refusal?_of_mem hpoint]
  · rfl
  · rfl

/-- Nothing in a number is refused. -/
theorem refusal?_scanNumber (cs : List Char) : refusal? (scanNumber cs).2 = refusal? cs :=
  (refusal?_fraction _).trans (refusal?_dropWhile isReadable_of_isDigit cs)

theorem mem_signs_of_mark (h : mark? c = some t) : c ∈ signs := by
  unfold mark? at h
  split at h <;> first | decide | cases h

/-! ### Single tokens -/

/-- The error that a text is left with after a step. -/
def Step.refusal? : Step → Option SyntaxError
  | .done => none
  | .stop e => some e
  | .token _ rest => Scan.refusal? rest

/-- Signs of two characters are read with the second one or without it; those that are refused
belong to the language in neither case, but for `!` before `=`. -/
theorem refusal?_pair {pair : Pair} (h : pair? c = some pair) :
    (if cs.head? = some pair.second then Step.ofReading pair.both cs.tail
      else Step.ofReading pair.alone cs).refusal? = refusal? (c :: cs) := by
  have hread {c d : Char} {both alone : Token} (hc : c ∈ signs) (hd : d ∈ signs) :
      (if cs.head? = some d then Step.ofReading (.ok both) cs.tail
        else Step.ofReading (.ok alone) cs).refusal? = refusal? (c :: cs) := by
    rw [refusal?_of_mem hc]
    split
    · rename_i hhead
      obtain ⟨rest, rfl⟩ := List.head?_eq_some_iff.mp hhead
      exact (refusal?_of_mem hd).symm
    · rfl
  unfold pair? at h
  split at h <;> cases h
  · exact hread (by decide) (by decide)
  · exact hread (by decide) (by decide)
  · exact hread (by decide) (by decide)
  · exact hread (by decide) (by decide)
  · exact hread (by decide) (by decide)
  · split
    · rename_i hhead
      obtain ⟨rest, rfl⟩ := List.head?_eq_some_iff.mp hhead
      rw [refusal?_of_readable rfl]
      exact (refusal?_of_mem (c := '=') (by decide)).symm
    · rename_i hhead
      exact (refusal?_of_unreadable (c := '!') (decide_eq_false hhead)).symm
  · rw [refusal?_of_unreadable (c := '&') rfl, refusal]
    split <;> rfl
  · rw [refusal?_of_unreadable (c := '|') rfl, refusal]
    split <;> rfl

/-- A sign begins a token wherever it stands. -/
theorem begins_of_mem (h : c ∈ signs) :
    (mark? c).isSome = true ∨ (pair? c).isSome = true ∨ c = '-' := by
  have hall : signs.all (fun c => (mark? c).isSome || ((pair? c).isSome || c == '-')) = true := by
    decide
  have hc := List.all_eq_true.mp hall c h
  simpa only [Bool.or_eq_true, beq_iff_eq] using hc

/-- A character that begins no token is not in the alphabet. -/
theorem refusal?_unexpected (hspace : c ≠ ' ') (hmark : mark? c = none) (hpair : pair? c = none)
    (hminus : c ≠ '-') (halpha : ¬ Text.isAlphabetic c = true) (hdigit : ¬ c.isDigit = true) :
    refusal? (c :: cs) = some (.unexpected c) := by
  have hsign : c ∉ signs := by
    intro hmem
    rcases begins_of_mem hmem with h | h | h
    · rw [hmark] at h
      cases h
    · rw [hpair] at h
      cases h
    · exact hminus h
  have hbang : c ≠ '!' := by
    rintro rfl
    cases hpair
  have hrefusal : refusal c cs.head? = .unexpected c := by
    unfold refusal
    split <;> first | rfl | cases hpair
  rw [refusal?_of_unreadable, hrefusal]
  simp [isReadable, hspace, hsign, halpha, hdigit, hbang]

/-- A token takes characters of the language only, and where there is none the character refused is
the one at the front. -/
theorem tokenAt_refusal (hspace : c ≠ ' ') :
    (tokenAt afterValue c cs).refusal? = refusal? (c :: cs) := by
  -- In the order of the scan. Each branch takes readable characters only, except for a sign that is
  -- no sign of the language and for a character that nothing begins with.
  unfold tokenAt
  split
  · rename_i hmark
    exact (refusal?_of_mem (mem_signs_of_mark hmark)).symm
  · rename_i hmark
    split
    · rename_i pair hpair
      exact refusal?_pair hpair
    · rename_i hpair
      split
      · rename_i hminus
        subst hminus
        rw [refusal?_of_mem (by decide)]
        split
        · exact refusal?_scanNumber cs
        · rfl
      · rename_i hminus
        split
        · rename_i halpha
          show refusal? ((c :: cs).dropWhile Text.isAlphabetic) = _
          rw [refusal?_dropWhile isReadable_of_isAlphabetic]
        · rename_i halpha
          split
          · exact refusal?_scanNumber (c :: cs)
          · rename_i hdigit
            exact (refusal?_unexpected hspace hmark hpair hminus halpha hdigit).symm

/-- Spaces are readable, so the first token is refused iff the text from it on is. -/
theorem next_refusal (afterValue : Bool) (cs : List Char) :
    (next afterValue cs).refusal? = refusal? cs := by
  induction cs with
  | nil => rfl
  | cons c cs ih =>
    by_cases hspace : c = ' '
    · subst hspace
      rw [next_space, ih]
      exact (refusal?_of_readable rfl).symm
    · rw [next_of_ne_space hspace, tokenAt_refusal hspace]

/-- The error of a scan is that of the leftmost character that does not belong to the language. -/
theorem scan_error (afterValue : Bool) (cs : List Char) :
    (scan afterValue cs).error? = refusal? cs := by
  have hnext := next_refusal afterValue cs
  rw [scan_eq]
  -- along the recursion of the scan: a token takes readable characters only
  cases hstep : next afterValue cs with
  | done =>
    rw [hstep] at hnext
    exact hnext
  | stop e =>
    rw [hstep] at hnext
    exact hnext
  | token t rest =>
    rw [hstep] at hnext
    have hlength := next_length hstep
    exact (scan_error t.endsValue rest).trans hnext
termination_by cs.length

/-! ### Literals -/

/-- A number as it is written: digits, perhaps a `-` before them, perhaps a point and more digits
behind them. -/
structure Literal where
  negative : Bool
  whole : List Char
  places : List Char
  whole_ne_nil : whole ≠ []
  isDigit_of_mem_whole : ∀ c ∈ whole, c.isDigit = true
  isDigit_of_mem_places : ∀ c ∈ places, c.isDigit = true

/-- The point and the places of a literal, if it has any. -/
def Literal.pointed (places : List Char) : List Char :=
  if places = [] then [] else '.' :: places

/-- The text of a literal. -/
def Literal.text (l : Literal) : List Char :=
  (if l.negative then ['-'] else []) ++ (l.whole ++ pointed l.places)

/-- The number that a literal stands for. -/
def Literal.value (l : Literal) : Float :=
  Binary64.withSign l.negative
    (Binary64.ofDecimal (Binary64.digitsValue (l.whole ++ l.places)) (-l.places.length))

theorem isDigit_of_mem_takeWhile (h : c ∈ cs.takeWhile Char.isDigit) : c.isDigit = true :=
  List.all_eq_true.mp List.all_takeWhile c h

/-- The places of a fraction are digits. -/
theorem fraction_digits (cs : List Char) : ∀ c ∈ (fraction cs).1, c.isDigit = true := by
  unfold fraction
  split
  · split
    · exact fun _ => isDigit_of_mem_takeWhile
    · split <;> exact fun _ => nofun
  · exact fun _ => nofun
  · exact fun _ => nofun

/-- The places of a number stand behind a point. -/
theorem pointed_prefix_fraction (cs : List Char) : Literal.pointed (fraction cs).1 <+: cs := by
  unfold fraction
  split
  · rename_i d ds
    split
    -- digits behind the point belong to the number; without any the point does not
    · rename_i hd
      have hplaces : (d :: ds).takeWhile Char.isDigit ≠ [] := by
        rw [List.takeWhile_cons_of_pos hd]
        exact List.cons_ne_nil _ _
      rw [Literal.pointed, if_neg hplaces, List.prefix_cons_inj]
      exact List.takeWhile_prefix _
    · split <;> exact List.nil_prefix
  · exact List.nil_prefix
  · exact List.nil_prefix

/-- What begins with a digit is read as the value of a literal at its front. -/
theorem number_literal {negative : Bool} (hd : d.isDigit = true)
    (h : Step.number negative (d :: cs) = .token t rest) :
    ∃ l : Literal, l.negative = negative ∧
      l.text <+: (if negative then ['-'] else []) ++ d :: cs ∧ t = .number l.value := by
  have hne : (d :: cs).takeWhile Char.isDigit ≠ [] := by
    rw [List.takeWhile_cons_of_pos hd]
    exact List.cons_ne_nil _ _
  refine ⟨⟨negative, (d :: cs).takeWhile Char.isDigit,
    (fraction ((d :: cs).dropWhile Char.isDigit)).1, hne, fun _ => isDigit_of_mem_takeWhile,
    fraction_digits _⟩, rfl, ?_, ?_⟩
  · refine (List.prefix_append_right_inj _).mpr ?_
    have hprefix := pointed_prefix_fraction ((d :: cs).dropWhile Char.isDigit)
    rw [← List.prefix_append_right_inj ((d :: cs).takeWhile Char.isDigit),
      List.takeWhile_append_dropWhile] at hprefix
    exact hprefix
  · cases h
    rfl

/-- A fraction is taken off the front. -/
theorem fraction_suffix (cs : List Char) : (fraction cs).2 <:+ cs := by
  unfold fraction
  split
  · split
    · exact (List.dropWhile_suffix _).trans (List.suffix_cons _ _)
    · split
      · exact List.suffix_rfl
      · exact List.suffix_cons _ _
  · exact List.nil_suffix
  · exact List.suffix_rfl

theorem scanNumber_suffix (cs : List Char) : (scanNumber cs).2 <:+ cs :=
  (fraction_suffix _).trans (List.dropWhile_suffix _)

theorem mark_ne_number (c : Char) (x : Float) : mark? c ≠ some (.number x) := by
  unfold mark?
  split <;> nofun

theorem pair_ne_number {pair : Pair} (h : pair? c = some pair) (x : Float) :
    pair.both ≠ .ok (.number x) ∧ pair.alone ≠ .ok (.number x) := by
  unfold pair? at h
  split at h <;> cases h <;> exact ⟨nofun, nofun⟩

theorem eq_of_ofReading {reading : Reading} (h : Step.ofReading reading cs = .token t rest) :
    reading = .ok t := by
  cases reading <;> cases h
  rfl

/-- A number is read from a literal at the front of the text. -/
theorem tokenAt_literal {x : Float} (h : tokenAt afterValue c cs = .token (.number x) rest) :
    ∃ l : Literal, l.text <+: c :: cs ∧ l.value = x := by
  have hliteral {negative : Bool} {d : Char} {ds : List Char} (hd : d.isDigit = true)
      (h : Step.number negative (d :: ds) = .token (.number x) rest)
      (htext : (if negative then ['-'] else []) ++ d :: ds = c :: cs) :
      ∃ l : Literal, l.text <+: c :: cs ∧ l.value = x := by
    obtain ⟨l, -, hprefix, hx⟩ := number_literal hd h
    cases hx
    exact ⟨l, htext ▸ hprefix, rfl⟩
  -- marks, signs and names are no numbers, and a minus is one only before a digit
  unfold tokenAt at h
  split at h
  · rename_i hmark
    cases h
    exact absurd hmark (mark_ne_number c x)
  · split at h
    · rename_i pair hpair
      obtain ⟨hboth, halone⟩ := pair_ne_number hpair x
      split at h
      · exact absurd (eq_of_ofReading h) hboth
      · exact absurd (eq_of_ofReading h) halone
    · split at h
      · rename_i hminus
        subst hminus
        split at h
        · rename_i hsign
          cases cs with
          | nil => simp at hsign
          | cons d ds =>
            have hd : d.isDigit = true := by simpa using (Bool.and_eq_true_iff.mp hsign).2
            exact hliteral hd h rfl
        · cases h
      · split at h
        · cases h
        · split at h
          · rename_i hdigit
            exact hliteral hdigit h rfl
          · cases h

/-- What follows a token is an end of the text. -/
theorem tokenAt_suffix (h : tokenAt afterValue c cs = .token t rest) : rest <:+ c :: cs := by
  unfold tokenAt at h
  split at h
  · cases h
    exact List.suffix_cons c cs
  · split at h
    · split at h
      · rw [ofReading_eq_token h]
        exact (List.tail_suffix cs).trans (List.suffix_cons c cs)
      · rw [ofReading_eq_token h]
        exact List.suffix_cons c cs
    · split at h
      · split at h
        · cases h
          exact (scanNumber_suffix cs).trans (List.suffix_cons c cs)
        · cases h
          exact List.suffix_cons c cs
      · split at h
        · cases h
          exact List.dropWhile_suffix _
        · split at h
          · cases h
            exact scanNumber_suffix (c :: cs)
          · cases h

/-- The first token of a text begins behind spaces. -/
theorem next_eq_token (h : next afterValue cs = .token t rest) :
    ∃ c cs', c :: cs' <:+ cs ∧ tokenAt afterValue c cs' = .token t rest := by
  induction cs with
  | nil => cases h
  | cons c cs ih =>
    by_cases hspace : c = ' '
    · subst hspace
      obtain ⟨d, ds, hsuffix, htoken⟩ := ih h
      exact ⟨d, ds, hsuffix.trans (List.suffix_cons _ _), htoken⟩
    · rw [next_of_ne_space hspace] at h
      exact ⟨c, cs, List.suffix_rfl, h⟩

/-- Every number is read from a literal that stands in the text. -/
theorem scan_literal (afterValue : Bool) (cs : List Char) {x : Float}
    (h : .number x ∈ (scan afterValue cs).tokens) :
    ∃ l : Literal, l.text <:+: cs ∧ l.value = x := by
  rw [scan_eq] at h
  cases hstep : next afterValue cs with
  | done | stop =>
    rw [hstep] at h
    cases h
  | token t rest =>
    rw [hstep] at h
    obtain ⟨c, cs', hsuffix, htoken⟩ := next_eq_token hstep
    rcases List.mem_cons.mp h with rfl | h
    · obtain ⟨l, hprefix, hvalue⟩ := tokenAt_literal htoken
      exact ⟨l, hprefix.isInfix.trans hsuffix.isInfix, hvalue⟩
    · have hlength := next_length hstep
      obtain ⟨l, hinfix, hvalue⟩ := scan_literal t.endsValue rest h
      exact ⟨l, hinfix.trans ((tokenAt_suffix htoken).trans hsuffix).isInfix, hvalue⟩
termination_by cs.length

end Scan

open Scan

/-- **The alphabet.** A source has tokens if and only if every character belongs to the language:
spaces, the sixteen signs, letters, digits, and `!` before `=`. Otherwise its error is that of the
leftmost character that does not belong to it, and there is no other error: whatever is read as a
number is the value of a literal. -/
theorem tokenize_alphabet (source : String) :
    ((∃ tokens, tokenize source = .ok tokens) ↔ Readable source.toList []) ∧
    (∀ e, tokenize source = .error e ↔ ∃ before c after, source.toList = before ++ c :: after ∧
      Readable before (c :: after) ∧ isReadable c after.head? = false ∧
      e = refusal c after.head?) ∧
    ∀ x, .number x ∈ (ofSource source).tokens →
      ∃ l : Literal, l.text <:+: source.toList ∧ l.value = x := by
  have herror : (ofSource source).error? = refusal? source.toList := scan_error false source.toList
  refine ⟨?_, fun e => ?_, fun x => scan_literal false source.toList⟩
  · rw [← refusal?_eq_none_iff, ← herror, tokenize]
    cases (ofSource source).error? <;> simp
  · rw [← refusal?_eq_some_iff, ← herror, tokenize]
    cases (ofSource source).error? <;> simp

/-- The first `&` is refused together with the one behind it, and the number before it is read. -/
theorem tokenize_alphabet_unsupported :
    tokenize "-1. && !" = .error (.unsupported "&&") ∧
      ∃ l : Literal, l.text <:+: "-1. && !".toList ∧ l.value = -1 := by
  obtain ⟨-, herror, hliteral⟩ := tokenize_alphabet "-1. && !"
  refine ⟨(herror _).mpr ⟨"-1. ".toList, '&', "& !".toList, ?_, ?_, rfl, rfl⟩, hliteral (-1) ?_⟩
  · rfl
  · decide
  · have hnumber : next false "-1. && !".toList = .token (.number (-1)) " && !".toList := rfl
    show _ ∈ (scan false "-1. && !".toList).tokens
    rw [scan_of_token hnumber]
    exact List.mem_cons_self

end PixelCalc
