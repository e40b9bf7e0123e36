import PixelCalc.Proofs.Syntax.Alphabet

/-!
# Words and what may stand behind them

A token is read from a word, and where the word ends is seen from the text behind it. Most words
look at one character there; a number that is written without a point looks at two, for a point
behind it is its own unless another point or a letter follows.

- `Word`: the words of every token, each with the texts that may stand behind it.
- `Word.next`, `exists_word`: words are what tokens are read from; `next_eq_token_iff` says so
  with the spaces in front.
- `Word.of_ends`: a delimiter may stand behind every word.
- `Word.of_looksAlike`: so may every text that does not differ in what the word looks at.
-/

namespace PixelCalc
namespace Scan

/-- A point before such a character is left by a number in front of it. -/
def keepsPoint (c : Char) : Bool :=
  c = '.' || Text.isAlphabetic c

/-- A point before such a character is not the end of a number. -/
def continuesPoint (c : Char) : Bool :=
  c.isDigit || keepsPoint c

/-- The token `t` is read from a word where the text in the last place stands behind it. -/
inductive Word (afterValue : Bool) : List Char → Token → List Char → Prop
  | mark {c : Char} {t : Token} (h : mark? c = some t) (rest : List Char) :
      Word afterValue [c] t rest
  | both {c : Char} {pair : Pair} {t : Token} (h : pair? c = some pair) (ht : pair.both = .ok t)
      (rest : List Char) : Word afterValue [c, pair.second] t rest
  | alone {c : Char} {pair : Pair} {t : Token} {rest : List Char} (h : pair? c = some pair)
      (ht : pair.alone = .ok t) (hrest : rest.head? ≠ some pair.second) :
      Word afterValue [c] t rest
  | minus {rest : List Char} (hrest : afterValue = false → rest.head?.any Char.isDigit = false) :
      Word afterValue ['-'] (.operator .minus) rest
  | name {word rest : List Char} (hne : word ≠ []) (hword : ∀ c ∈ word, Text.isAlphabetic c = true)
      (hrest : rest.head?.any Text.isAlphabetic = false) :
      Word afterValue word (.name (String.ofList word)) rest
  | number (l : Literal) {rest : List Char} (hsign : l.negative = true → afterValue = false)
      (hrest : rest.head?.any Char.isDigit = false)
      (hpoint : l.places = [] → rest.head? = some '.' → rest.tail.head?.any keepsPoint = true) :
      Word afterValue l.text (.number l.value) rest
  | pointed (l : Literal) {rest : List Char} (hsign : l.negative = true → afterValue = false)
      (hplaces : l.places = []) (hrest : rest.head?.any continuesPoint = false) :
      Word afterValue (l.text ++ ['.']) (.number l.value) rest

variable {p : Char → Bool} {c d : Char} {cs rest rest' word : List Char} {t : Token}
  {afterValue : Bool}

/-! ### Runs of characters -/

/-- A word is what is taken, if what follows does not go on with it. -/
theorem takeWhile_append_stop (hword : ∀ c ∈ word, p c = true) (hrest : rest.head?.any p = false) :
    (word ++ rest).takeWhile p = word := by
  have hstop : rest.takeWhile p = [] := by
    cases rest with
    | nil => rfl
    | cons c rest => exact List.takeWhile_cons_of_neg (Bool.eq_false_iff.mp hrest)
  rw [List.takeWhile_append_of_pos hword, hstop, List.append_nil]

/-- And what follows is what is left. -/
theorem dropWhile_append_stop (hword : ∀ c ∈ word, p c = true) (hrest : rest.head?.any p = false) :
    (word ++ rest).dropWhile p = rest := by
  rw [List.dropWhile_append_of_pos hword]
  cases rest with
  | nil => rfl
  | cons c rest => exact List.dropWhile_cons_of_neg (Bool.eq_false_iff.mp hrest)

/-- What is left does not go on with the word. -/
theorem head?_any_dropWhile (p : Char → Bool) (cs : List Char) :
    (cs.dropWhile p).head?.any p = false := by
  induction cs with
  | nil => rfl
  | cons c cs ih =>
    rw [List.dropWhile_cons]
    split
    · exact ih
    · rename_i hc
      exact Bool.eq_false_iff.mpr hc

/-! ### From tokens to words -/

/-- What follows the whole digits of a number is the point and the places of a literal, or a point
that ends the number. -/
theorem fraction_word (hcs : cs.head?.any Char.isDigit = false) :
    (cs = Literal.pointed (fraction cs).1 ++ (fraction cs).2 ∧
      (fraction cs).2.head?.any Char.isDigit = false ∧
      ((fraction cs).1 = [] → (fraction cs).2.head? = some '.' →
        (fraction cs).2.tail.head?.any keepsPoint = true)) ∨
    ((fraction cs).1 = [] ∧ cs = '.' :: (fraction cs).2 ∧
      (fraction cs).2.head?.any continuesPoint = false) := by
  unfold fraction
  split
  -- a point with something behind it: digits, which it is the point of; a point or a letter, which
  -- it stands before; anything else, before which it ends the number
  · rename_i c cs
    by_cases hc : c.isDigit = true
    · rw [if_pos hc]
      have hplaces : (c :: cs).takeWhile Char.isDigit ≠ [] := by
        rw [List.takeWhile_cons_of_pos hc]
        exact List.cons_ne_nil _ _
      refine .inl ⟨?_, head?_any_dropWhile _ _, fun h => absurd h hplaces⟩
      rw [Literal.pointed, if_neg hplaces, List.cons_append, List.takeWhile_append_dropWhile]
    · rw [if_neg hc]
      by_cases hleft : c = '.' ∨ Text.isAlphabetic c = true
      · rw [if_pos hleft]
        refine .inl ⟨rfl, rfl, fun _ _ => ?_⟩
        simpa [keepsPoint] using hleft
      · rw [if_neg hleft]
        refine .inr ⟨rfl, rfl, ?_⟩
        simp only [not_or] at hleft
        simp [continuesPoint, keepsPoint, hc, hleft]
  · exact .inr ⟨rfl, rfl, rfl⟩
  · rename_i hpoint hend
    refine .inl ⟨rfl, hcs, fun _ hhead => ?_⟩
    obtain ⟨rest, rfl⟩ := List.head?_eq_some_iff.mp hhead
    cases rest with
    | nil => exact absurd rfl hend
    | cons c rest => exact absurd rfl (hpoint c rest)

/-- What begins with a digit, and perhaps a sign before it, is read from the word of a literal. -/
theorem exists_word_number (negative : Bool) (hd : d.isDigit = true)
    (hsign : negative = true → afterValue = false)
    (h : Step.number negative (d :: cs) = .token t rest) :
    ∃ word, (if negative then ['-'] else []) ++ d :: cs = word ++ rest ∧
      Word afterValue word t rest := by
  have hne : (d :: cs).takeWhile Char.isDigit ≠ [] := by
    rw [List.takeWhile_cons_of_pos hd]
    exact List.cons_ne_nil _ _
  let l : Literal := ⟨negative, (d :: cs).takeWhile Char.isDigit,
    (fraction ((d :: cs).dropWhile Char.isDigit)).1, hne, fun _ => isDigit_of_mem_takeWhile,
    fraction_digits _⟩
  have hcut : d :: cs = l.whole ++ (d :: cs).dropWhile Char.isDigit :=
    List.takeWhile_append_dropWhile.symm
  cases h
  rcases fraction_word (head?_any_dropWhile Char.isDigit (d :: cs)) with
    ⟨htext, hrest, hpoint⟩ | ⟨hplaces, htext, hrest⟩
  · refine ⟨l.text, ?_, .number l hsign hrest hpoint⟩
    have hwhole : d :: cs = l.whole ++ (Literal.pointed l.places ++ (scanNumber (d :: cs)).2) :=
      hcut.trans (congrArg (l.whole ++ ·) htext)
    refine (congrArg _ hwhole).trans ?_
    show _ = (if negative then ['-'] else []) ++ (l.whole ++ Literal.pointed l.places) ++ _
    rw [List.append_assoc, List.append_assoc]
  · refine ⟨l.text ++ ['.'], ?_, .pointed l hsign hplaces hrest⟩
    have hwhole : d :: cs = l.whole ++ '.' :: (scanNumber (d :: cs)).2 :=
      hcut.trans (congrArg (l.whole ++ ·) htext)
    refine (congrArg _ hwhole).trans ?_
    show _ = (if negative then ['-'] else []) ++ (l.whole ++ Literal.pointed l.places) ++ ['.'] ++ _
    rw [Literal.pointed, if_pos hplaces, List.append_nil, List.append_assoc, List.append_assoc]
    rfl

/-- A token is read from a word at the front of the text. -/
theorem exists_word (h : tokenAt afterValue c cs = .token t rest) :
    ∃ word, c :: cs = word ++ rest ∧ Word afterValue word t rest := by
  unfold tokenAt at h
  split at h
  · rename_i hmark
    cases h
    exact ⟨[c], rfl, .mark hmark _⟩
  · split at h
    · rename_i pair hpair
      split at h
      · rename_i hhead
        obtain ⟨tail, rfl⟩ := List.head?_eq_some_iff.mp hhead
        cases ofReading_eq_token h
        exact ⟨[c, pair.second], rfl, .both hpair (eq_of_ofReading h) _⟩
      · rename_i hhead
        cases ofReading_eq_token h
        exact ⟨[c], rfl, .alone hpair (eq_of_ofReading h) hhead⟩
    · split at h
      · rename_i hminus
        subst hminus
        split at h
        · rename_i hsign
          obtain ⟨hafter, hdigit⟩ := Bool.and_eq_true_iff.mp hsign
          cases cs with
          | nil => cases hdigit
          | cons d ds =>
            exact exists_word_number true hdigit (fun _ => by simpa using hafter) h
        · rename_i hsign
          cases h
          refine ⟨['-'], rfl, .minus fun hafter => ?_⟩
          simpa [hafter] using hsign
      · split at h
        · rename_i halpha
          cases h
          refine ⟨(c :: cs).takeWhile Text.isAlphabetic, List.takeWhile_append_dropWhile.symm,
            .name ?_ ?_ (head?_any_dropWhile _ _)⟩
          · rw [List.takeWhile_cons_of_pos halpha]
            exact List.cons_ne_nil _ _
          · exact fun _ hmem => List.all_eq_true.mp List.all_takeWhile _ hmem
        · split at h
          · rename_i hdigit
            exact exists_word_number false hdigit nofun h
          · cases h

/-! ### From words to tokens -/

/-- The fraction of a literal is read back: its places, or none if what follows leaves the point
alone. -/
theorem fraction_pointed {places : List Char} (hplaces : ∀ c ∈ places, c.isDigit = true)
    (hrest : rest.head?.any Char.isDigit = false)
    (hpoint : places = [] → rest.head? = some '.' → rest.tail.head?.any keepsPoint = true) :
    fraction (Literal.pointed places ++ rest) = (places, rest) := by
  cases places with
  | nil =>
    show fraction rest = _
    -- without places a point may follow, but only one that is kept for what stands behind it
    by_cases hhead : rest.head? = some '.'
    · obtain ⟨tail, rfl⟩ := List.head?_eq_some_iff.mp hhead
      have hkeeps := hpoint rfl rfl
      cases tail with
      | nil => cases hkeeps
      | cons c tail =>
        have hleft : c = '.' ∨ Text.isAlphabetic c = true := by
          simpa [keepsPoint] using hkeeps
        have hc : ¬ c.isDigit = true := by
          rcases hleft with rfl | hleft
          · decide
          · intro hc
            rw [not_isAlphabetic_of_isDigit hc] at hleft
            cases hleft
        rw [fraction, if_neg hc, if_pos hleft]
    · exact fraction_of_ne_point hhead
  | cons c places =>
    have hc : c.isDigit = true := hplaces c List.mem_cons_self
    show fraction ('.' :: c :: (places ++ rest)) = _
    rw [fraction, if_pos hc, ← List.cons_append, takeWhile_append_stop hplaces hrest,
      dropWhile_append_stop hplaces hrest]

/-- A point that ends a number is taken with it. -/
theorem fraction_point (hrest : rest.head?.any continuesPoint = false) :
    fraction ('.' :: rest) = ([], rest) := by
  cases rest with
  | nil => rfl
  | cons c rest =>
    obtain ⟨hc, hleft⟩ : c.isDigit = false ∧ ¬ (c = '.' ∨ Text.isAlphabetic c = true) := by
      simpa [continuesPoint, keepsPoint] using hrest
    rw [fraction, if_neg (Bool.eq_false_iff.mp hc), if_neg hleft]

/-- The digits of a number are read whole when what stands behind them begins with no digit. -/
theorem scanNumber_whole {whole behind : List Char} (hwhole : ∀ c ∈ whole, c.isDigit = true)
    (hbehind : behind.head?.any Char.isDigit = false) :
    scanNumber (whole ++ behind) =
      (Binary64.ofDecimal (Binary64.digitsValue (whole ++ (fraction behind).1))
        (-(fraction behind).1.length), (fraction behind).2) := by
  unfold scanNumber
  rw [takeWhile_append_stop hwhole hbehind, dropWhile_append_stop hwhole hbehind]

/-- A literal is read with its sign where a sign may stand. -/
theorem next_number (l : Literal) (hsign : l.negative = true → afterValue = false)
    (behind : List Char) :
    next afterValue ((if l.negative then ['-'] else []) ++ (l.whole ++ behind)) =
      Step.number l.negative (l.whole ++ behind) := by
  obtain ⟨d, ds, hwhole⟩ := List.exists_cons_of_ne_nil l.whole_ne_nil
  have hd : d.isDigit = true := l.isDigit_of_mem_whole d (hwhole ▸ List.mem_cons_self)
  rw [hwhole]
  cases hnegative : l.negative with
  | false =>
    show next afterValue (d :: (ds ++ behind)) = _
    rw [next_of_ne_space (begins_no_sign (.inr hd)).1, tokenAt_of_isDigit hd]
    rfl
  | true =>
    show tokenAt afterValue '-' (d :: (ds ++ behind)) = _
    rw [hsign hnegative]
    show (if d.isDigit then _ else _) = _
    rw [if_pos hd]
    rfl

theorem mark?_of_pair? {pair : Pair} (h : pair? c = some pair) : mark? c = none := by
  unfold pair? at h
  split at h <;> first | rfl | cases h

/-- A word is read as its token. -/
theorem Word.next (h : Word afterValue word t rest) :
    Scan.next afterValue (word ++ rest) = .token t rest := by
  -- one case for each kind of word; in each the scan takes the branch of the kind and ends where
  -- the word does
  cases h with
  | @mark c _ hmark =>
    have hspace : c ≠ ' ' := by
      rintro rfl
      cases hmark
    show Scan.next afterValue (c :: rest) = _
    rw [next_of_ne_space hspace, tokenAt, hmark]
  | @both c pair _ hpair ht =>
    have hspace : c ≠ ' ' := by
      rintro rfl
      cases hpair
    show Scan.next afterValue (c :: pair.second :: rest) = _
    rw [next_of_ne_space hspace, tokenAt, mark?_of_pair? hpair, hpair]
    show (if some pair.second = some pair.second then _ else _) = _
    rw [if_pos rfl, ht]
    rfl
  | @alone c pair _ _ hpair ht hrest =>
    have hspace : c ≠ ' ' := by
      rintro rfl
      cases hpair
    show Scan.next afterValue (c :: rest) = _
    rw [next_of_ne_space hspace, tokenAt, mark?_of_pair? hpair, hpair]
    show (if rest.head? = some pair.second then _ else _) = _
    rw [if_neg hrest, ht]
    rfl
  | minus hrest =>
    show (if !afterValue && rest.head?.any Char.isDigit then _ else _) = _
    cases afterValue with
    | true => rfl
    | false =>
      rw [hrest rfl]
      rfl
  | name hne hword hrest =>
    obtain ⟨c, cs, rfl⟩ := List.exists_cons_of_ne_nil hne
    have hc : Text.isAlphabetic c = true := hword c List.mem_cons_self
    rw [List.cons_append, next_of_ne_space (begins_no_sign (.inl hc)).1, tokenAt_of_isAlphabetic hc,
      ← List.cons_append, takeWhile_append_stop hword hrest, dropWhile_append_stop hword hrest]
  | number l hsign hrest hpoint =>
    have hbehind : (Literal.pointed l.places ++ rest).head?.any Char.isDigit = false := by
      unfold Literal.pointed
      split
      · exact hrest
      · rfl
    have hscan : scanNumber (l.whole ++ (Literal.pointed l.places ++ rest)) = _ :=
      scanNumber_whole l.isDigit_of_mem_whole hbehind
    rw [fraction_pointed l.isDigit_of_mem_places hrest hpoint] at hscan
    rw [Literal.text, List.append_assoc, List.append_assoc, next_number l hsign, Step.number, hscan]
    rfl
  | pointed l hsign hplaces hrest =>
    have hscan : scanNumber (l.whole ++ '.' :: rest) = _ :=
      scanNumber_whole l.isDigit_of_mem_whole rfl
    rw [fraction_point hrest] at hscan
    rw [Literal.text, Literal.pointed, if_pos hplaces, List.append_nil, List.append_assoc,
      List.append_assoc, List.singleton_append, next_number l hsign, Step.number, hscan]
    show Step.token (.number (Binary64.withSign _ (Binary64.ofDecimal _ (-([] : List Char).length))))
      rest = .token (.number (Binary64.withSign _ (Binary64.ofDecimal _ (-l.places.length)))) rest
    rw [hplaces]

/-- Any number of spaces before a token is skipped. -/
theorem next_spaces (n : Nat) (afterValue : Bool) (cs : List Char) :
    next afterValue (List.replicate n ' ' ++ cs) = next afterValue cs := by
  induction n with
  | zero => rfl
  | succ n ih => exact ih

/-- A text has a token exactly if a word with that token stands in it behind spaces. -/
theorem next_eq_token_iff :
    next afterValue cs = .token t rest ↔
      ∃ n word, cs = List.replicate n ' ' ++ (word ++ rest) ∧ Word afterValue word t rest := by
  constructor
  · intro h
    induction cs with
    | nil => cases h
    | cons c cs ih =>
      by_cases hspace : c = ' '
      · subst hspace
        obtain ⟨n, word, rfl, hword⟩ := ih h
        exact ⟨n + 1, word, rfl, hword⟩
      · rw [next_of_ne_space hspace] at h
        obtain ⟨word, htext, hword⟩ := exists_word h
        exact ⟨0, word, htext, hword⟩
  · rintro ⟨n, word, rfl, hword⟩
    rw [next_spaces, hword.next]

/-! ### What stands behind a word -/

namespace Word

theorem ne_nil (h : Word afterValue word t rest) : word ≠ [] := by
  rintro rfl
  have hnext := next_length h.next
  exact absurd hnext (Nat.lt_irrefl _)

/-- A name is the word itself, up to the last letter. -/
theorem of_name {n : String} (h : Word afterValue word (.name n) rest) :
    word ≠ [] ∧ (∀ c ∈ word, Text.isAlphabetic c = true) ∧
      rest.head?.any Text.isAlphabetic = false ∧ n = String.ofList word := by
  generalize ht : Token.name n = t at h
  cases h with
  | mark h =>
    unfold mark? at h
    split at h <;> cases h <;> cases ht
  | both h hboth =>
    unfold pair? at h
    split at h <;> cases h <;> cases hboth <;> cases ht
  | alone h halone =>
    unfold pair? at h
    split at h <;> cases h <;> cases halone <;> cases ht
  | name hne hword hrest =>
    cases ht
    exact ⟨hne, hword, hrest, rfl⟩
  | _ => cases ht

/-- A delimiter may stand behind every word. -/
theorem of_ends (h : Word afterValue word t rest) (hends : Ends rest') :
    Word afterValue word t rest' := by
  have hpoint : rest'.head? ≠ some '.' := hends.head?_ne (by decide)
  cases h with
  | mark hmark => exact .mark hmark _
  | both hpair ht => exact .both hpair ht _
  | alone hpair ht => exact .alone hpair ht (hends.head?_ne (isDelimiter_second hpair))
  | minus => exact .minus fun _ => hends.head?_any continues_isDigit
  | name hne hword => exact .name hne hword (hends.head?_any continues_isAlphabetic)
  | number l hsign =>
    exact .number l hsign (hends.head?_any continues_isDigit) fun _ hhead => absurd hhead hpoint
  | pointed l hsign hplaces =>
    refine .pointed l hsign hplaces ?_
    cases rest' with
    | nil => rfl
    | cons c rest' =>
      have hc := ends_cons_iff.mp hends
      have hne : c ≠ '.' := fun heq => hpoint (congrArg some heq)
      simp [continuesPoint, keepsPoint, continues_isDigit c hc, continues_isAlphabetic c hc, hne]

/-- A number that is written without a point. -/
def isWhole (word : List Char) : Token → Bool
  | .number _ => !word.contains '.'
  | _ => false

/-- What a word looks at in the text behind it: one character, or two if it is a number without a
point and the first of them is a point. -/
def LooksAlike (word : List Char) (t : Token) (rest rest' : List Char) : Prop :=
  rest'.head? = rest.head? ∧
    (isWhole word t = true → rest.head? = some '.' → rest'.tail.head? = rest.tail.head?)

/-- A literal without places is a whole number. -/
theorem isWhole_text (l : Literal) (h : l.places = []) : isWhole l.text (.number l.value) = true := by
  have hpoint : '.' ∉ l.text := by
    intro hmem
    have hmem : '.' ∈ l.whole := by
      simpa [Literal.text, Literal.pointed, h] using hmem
    exact absurd (l.isDigit_of_mem_whole '.' hmem) (by decide)
  simp [isWhole, hpoint]

/-- So may every text that does not differ in what the word looks at. -/
theorem of_looksAlike (h : Word afterValue word t rest) (hlike : LooksAlike word t rest rest') :
    Word afterValue word t rest' := by
  obtain ⟨hhead, htail⟩ := hlike
  -- each condition on what follows looks at the first character, and that on a point at the second
  cases h with
  | mark hmark => exact .mark hmark _
  | both hpair ht => exact .both hpair ht _
  | alone hpair ht hrest => exact .alone hpair ht (hhead ▸ hrest)
  | minus hrest => exact .minus (hhead ▸ hrest)
  | name hne hword hrest => exact .name hne hword (hhead ▸ hrest)
  | number l hsign hrest hpoint =>
    refine .number l hsign (hhead ▸ hrest) fun hplaces hhead' => ?_
    rw [hhead] at hhead'
    rw [htail (isWhole_text l hplaces) hhead']
    exact hpoint hplaces hhead'
  | pointed l hsign hplaces hrest => exact .pointed l hsign hplaces (hhead ▸ hrest)

/-- A number that is written without a point leaves one behind it to what comes next, and takes it
where a text stands next that the point does not begin. -/
theorem takes_point (h : Word afterValue word t rest) (hwhole : isWhole word t = true)
    (hhead : rest.head? = some '.') :
    rest.tail.head?.any keepsPoint = true ∧ ∀ {rest' : List Char},
      rest'.head?.any continuesPoint = false → Word afterValue (word ++ ['.']) t rest' := by
  unfold isWhole at hwhole
  split at hwhole
  · rename_i x
    have hpoint : '.' ∉ word := by simpa using hwhole
    cases h with
    | mark hmark => exact absurd hmark (mark_ne_number _ x)
    | both hpair ht => exact absurd ht (pair_ne_number hpair x).1
    | alone hpair ht => exact absurd ht (pair_ne_number hpair x).2
    | number l hsign _ hkeeps =>
      have hplaces : l.places = [] := by
        cases hplaces : l.places with
        | nil => rfl
        | cons c places => exact absurd (by simp [Literal.text, Literal.pointed, hplaces]) hpoint
      exact ⟨hkeeps hplaces hhead, .pointed l hsign hplaces⟩
    | pointed => exact absurd (List.mem_append_right _ List.mem_cons_self) hpoint
  · cases hwhole

theorem isWhole_spaces (n : Nat) (word : List Char) (t : Token) :
    isWhole (List.replicate n ' ' ++ word) t = isWhole word t := by
  cases t <;> simp [isWhole]

end Word

end Scan
end PixelCalc
