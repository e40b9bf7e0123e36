import PixelCalc.Proofs.Syntax.IndexNotation
import PixelCalc.Proofs.Syntax.Renaming
import PixelCalc.Proofs.Syntax.Word

/-!
# The case of called names

A name is called if a round bracket stands behind it. In another case it is still a name, and the
tokens around it are read as before.

- `lowerCalls`: a text with its called names in small letters; texts that differ in the case of
  called names are those that are equal then, and `lowerCalls_recased` gives them.
- `lowerCalled`: the same for tokens.
- `scan_lowerCalls`: the one is read as the other; `tokenize_of_lowerCalls` compares two sources.
-/

namespace PixelCalc

/-! ### Letters -/

namespace Text

/-- Only letters have another case, and it is the case of a letter. -/
theorem toLower_cases (c : Char) :
    c.toLower = c ∨ (isAlphabetic c = true ∧ isAlphabetic c.toLower = true) := by
  by_cases h : 65 ≤ c.toNat ∧ c.toNat ≤ 90
  · have hupper : c.val ≥ 'A'.val ∧ c.val ≤ 'Z'.val := by
      simpa [UInt32.le_iff_toNat_le] using h
    have hlower : c.toLower.toNat = c.toNat + 32 := by
      unfold Char.toLower
      rw [dif_pos hupper]
      show (c.val + 32).toNat = c.val.toNat + 32
      have hbound : c.val.toNat ≤ 90 := h.2
      rw [UInt32.toNat_add]
      exact Nat.mod_eq_of_lt (by simp; omega)
    refine .inr ⟨?_, ?_⟩
    · rw [isAlphabetic, alphabeticRanges, inRanges_of_lt (by omega), decide_eq_true_iff]
      omega
    · rw [isAlphabetic, alphabeticRanges, inRanges_of_lt (by omega), decide_eq_true_iff]
      omega
  · left
    unfold Char.toLower
    rw [dif_neg]
    simpa [UInt32.le_iff_toNat_le] using h

/-- What is no letter has one case. -/
theorem toLower_of_not_isAlphabetic {c : Char} (h : isAlphabetic c = false) : c.toLower = c := by
  rcases toLower_cases c with hc | ⟨hc, -⟩
  · exact hc
  · rw [h] at hc
    cases hc

/-- What is the same for all letters is the same in both cases. -/
theorem eq_toLower {p : Char → Bool} {b : Bool} (hp : ∀ c, isAlphabetic c = true → p c = b)
    (c : Char) : p c.toLower = p c := by
  rcases toLower_cases c with hc | ⟨hc, hlower⟩
  · rw [hc]
  · rw [hp c hc, hp _ hlower]

theorem isAlphabetic_toLower (c : Char) : isAlphabetic c.toLower = isAlphabetic c :=
  eq_toLower (fun _ h => h) c

/-- Digits have one case. -/
theorem isDigit_toLower (c : Char) : c.toLower.isDigit = c.isDigit := by
  refine @eq_toLower Char.isDigit false (fun c hc => ?_) c
  rw [Bool.eq_false_iff]
  intro hdigit
  rw [Scan.not_isAlphabetic_of_isDigit hdigit] at hc
  cases hc

/-- No letter is a sign in another case. -/
theorem toLower_eq_iff {c d : Char} (hd : isAlphabetic d = false) : c.toLower = d ↔ c = d := by
  rcases toLower_cases c with hc | ⟨hc, hlower⟩
  · rw [hc]
  · refine iff_of_false ?_ ?_
    · rintro rfl
      rw [hd] at hlower
      cases hlower
    · rintro rfl
      rw [hd] at hc
      cases hc

theorem toLower_ofList (cs : List Char) :
    (String.ofList cs).toLower = String.ofList (cs.map Char.toLower) := by
  rw [← String.toList_inj, toList_toLower, String.toList_ofList, String.toList_ofList]

end Text

/-! ### Texts and tokens -/

/-- A round bracket opens behind the spaces that the text begins with. -/
def opensNext (cs : List Char) : Bool :=
  (cs.dropWhile (· == ' ')).head? == some '('

/-- The text goes on behind a letter of a name that is called. -/
def inCall (cs : List Char) : Bool :=
  opensNext (cs.dropWhile Text.isAlphabetic)

/-- A text with its called names in small letters. -/
def lowerCalls : List Char → List Char
  | [] => []
  | c :: cs => (if inCall cs then c.toLower else c) :: lowerCalls cs

/-- A token with its name in small letters, if it has one and is called. -/
def Token.lowerIf (called : Bool) : Token → Token
  | .name n => .name (if called then n.toLower else n)
  | t => t

/-- Tokens with the called names in small letters. -/
def lowerCalled : List Token → List Token
  | [] => []
  | t :: rest => t.lowerIf (opensRound rest) :: lowerCalled rest

/-- A name ends a value in any case, so a sign behind it is read the same. -/
theorem Token.endsValue_lowerIf (called : Bool) (t : Token) :
    (t.lowerIf called).endsValue = t.endsValue := by
  cases t <;> rfl

/-! ### Tokens that differ in the case of called names -/

/-- Brackets have no case, so what is called stays called. -/
theorem opensRound_lowerCalled (tokens : List Token) :
    opensRound (lowerCalled tokens) = opensRound tokens := by
  cases tokens with
  | nil => rfl
  | cons t tokens =>
    cases t with
    | opening b => cases b <;> rfl
    | _ => rfl

/-- Tokens that differ in the case of called names are the same, but for a called name in front,
which is the same in small letters. -/
theorem lowerCalled_cons_inv {t : Token} {tokens tokens' : List Token}
    (h : lowerCalled tokens' = lowerCalled (t :: tokens)) :
    ∃ t' rest, tokens' = t' :: rest ∧ lowerCalled rest = lowerCalled tokens ∧
      opensRound rest = opensRound tokens ∧
      (t' = t ∨ ∃ n n', opensRound tokens = true ∧ t = .name n ∧ t' = .name n' ∧
        n'.toLower = n.toLower) := by
  cases tokens' with
  | nil => cases h
  | cons t' rest =>
    obtain ⟨hhead, hrest⟩ := List.cons.inj h
    have hopens : opensRound rest = opensRound tokens := by
      rw [← opensRound_lowerCalled rest, hrest, opensRound_lowerCalled]
    refine ⟨t', rest, rfl, hrest, hopens, ?_⟩
    rw [hopens] at hhead
    cases hcalled : opensRound tokens with
    | false =>
      rw [hcalled] at hhead
      refine .inl ?_
      cases t <;> cases t' <;> exact hhead
    | true =>
      rw [hcalled] at hhead
      cases t with
      | name n =>
        cases t' with
        | name n' => exact .inr ⟨n, n', rfl, rfl, rfl, Token.name.inj hhead⟩
        | _ => cases hhead
      | _ =>
        refine .inl ?_
        cases t' <;> first | exact hhead | cases hhead

/-- What is called behind a token is called in the whole. -/
theorem mem_calledNames_cons {t : Token} {n : String} {tokens : List Token}
    (h : n ∈ calledNames tokens) : n ∈ calledNames (t :: tokens) := by
  cases t with
  | name m =>
    rw [calledNames]
    split
    · exact List.mem_cons_of_mem _ h
    · exact h
  | opening b =>
    cases b with
    | round => exact h
    | square => exact List.mem_cons_of_mem _ h
  | _ => exact h

/-- A renaming under which called names are the same in every case makes such tokens the same. -/
theorem rename_of_lowerCalled {ρ : String → String} {tokens tokens' : List Token}
    (h : lowerCalled tokens' = lowerCalled tokens)
    (hρ : ∀ n ∈ calledNames tokens, ∀ n', n'.toLower = n.toLower → ρ n' = ρ n) :
    tokens'.map (Token.rename ρ) = tokens.map (Token.rename ρ) := by
  induction tokens generalizing tokens' with
  | nil =>
    cases tokens' with
    | nil => rfl
    | cons => cases h
  | cons t tokens ih =>
    obtain ⟨t', rest, rfl, hrest, -, hhead⟩ := lowerCalled_cons_inv h
    rw [List.map_cons, List.map_cons, ih hrest fun n hn => hρ n (mem_calledNames_cons hn)]
    rcases hhead with rfl | ⟨n, n', hopens, rfl, rfl, hlower⟩
    · rfl
    · have hn : n ∈ calledNames (.name n :: tokens) := by
        rw [calledNames, if_pos hopens]
        exact List.mem_cons_self
      rw [Token.rename, Token.rename, hρ n hn n' hlower]

/-- The case of called names is of no account for the operands. -/
theorem operands_of_lowerCalled {tokens tokens' : List Token}
    (h : lowerCalled tokens' = lowerCalled tokens) : operands tokens' = operands tokens := by
  induction tokens generalizing tokens' with
  | nil =>
    cases tokens' with
    | nil => rfl
    | cons => cases h
  | cons t tokens ih =>
    obtain ⟨t', rest, rfl, hrest, hopens, hhead⟩ := lowerCalled_cons_inv h
    rcases hhead with rfl | ⟨n, n', hcalled, rfl, rfl, -⟩
    · cases t' with
      | name n => rw [operands, operands, hopens, ih hrest]
      | number x => rw [operands, operands, ih hrest]
      | _ =>
        show operands rest = operands tokens
        exact ih hrest
    · rw [operands, operands, hopens, if_pos hcalled, if_pos hcalled, ih hrest]

namespace Scan

variable {c d : Char} {cs rest word : List Char} {t : Token} {tokens : List Token}
  {afterValue : Bool} {p : Char → Bool}

/-- A test that does not tell cases apart sees no difference at the first character. -/
theorem head?_lowerCalls (hp : ∀ c, p c.toLower = p c) (cs : List Char) :
    (lowerCalls cs).head?.any p = cs.head?.any p := by
  cases cs with
  | nil => rfl
  | cons c cs =>
    show p (if inCall cs then c.toLower else c) = p c
    split
    · exact hp c
    · rfl

/-- A sign stands at the front in one text iff it does in the other. -/
theorem head?_lowerCalls_iff (hd : Text.isAlphabetic d = false) :
    (lowerCalls cs).head? = some d ↔ cs.head? = some d := by
  cases cs with
  | nil => exact Iff.rfl
  | cons c cs =>
    show some (if inCall cs then c.toLower else c) = some d ↔ some c = some d
    rw [Option.some_inj, Option.some_inj]
    split
    · exact Text.toLower_eq_iff hd
    · rfl

/-- Whether a letter belongs to a called name depends on what stands behind it only. -/
theorem tail_lowerCalls (cs : List Char) : (lowerCalls cs).tail = lowerCalls cs.tail := by
  cases cs <;> rfl

/-! ### Words -/

/-- Text without letters stays as it is. -/
theorem lowerCalls_append (hword : ∀ c ∈ word, Text.isAlphabetic c = false) (rest : List Char) :
    lowerCalls (word ++ rest) = word ++ lowerCalls rest := by
  induction word with
  | nil => rfl
  | cons c word ih =>
    obtain ⟨hc, hword⟩ := List.forall_mem_cons.mp hword
    rw [List.cons_append, lowerCalls, Text.toLower_of_not_isAlphabetic hc, ite_self, ih hword]
    rfl

/-- A name is called or not as a whole. -/
theorem lowerCalls_name (hword : ∀ c ∈ word, Text.isAlphabetic c = true)
    (hrest : rest.head?.any Text.isAlphabetic = false) :
    lowerCalls (word ++ rest) =
      (if opensNext rest then word.map Char.toLower else word) ++ lowerCalls rest := by
  induction word with
  | nil => simp
  | cons c word ih =>
    obtain ⟨-, hword⟩ := List.forall_mem_cons.mp hword
    have hcall : inCall (word ++ rest) = opensNext rest := by
      rw [inCall, dropWhile_append_stop hword hrest]
    rw [List.cons_append, lowerCalls, hcall, ih hword]
    split <;> rfl

/-! ### Texts that differ in the case of called names -/

/-- A test that does not tell cases apart stops at the same place. -/
theorem dropWhile_lowerCalls (hp : ∀ c, p c.toLower = p c) (cs : List Char) :
    (lowerCalls cs).dropWhile p = lowerCalls (cs.dropWhile p) := by
  induction cs with
  | nil => rfl
  | cons c cs ih =>
    have hc : p (if inCall cs then c.toLower else c) = p c := by
      split
      · exact hp c
      · rfl
    rw [lowerCalls, List.dropWhile_cons, List.dropWhile_cons, hc, ih]
    split <;> rfl

/-- Small letters call what the letters before called. -/
theorem inCall_lowerCalls (cs : List Char) : inCall (lowerCalls cs) = inCall cs := by
  have hspace (c : Char) : (c.toLower == ' ') = (c == ' ') := by
    rw [Bool.eq_iff_iff, beq_iff_eq, beq_iff_eq, Text.toLower_eq_iff (by decide)]
  unfold inCall opensNext
  rw [dropWhile_lowerCalls Text.isAlphabetic_toLower, dropWhile_lowerCalls hspace,
    Bool.eq_iff_iff, beq_iff_eq, beq_iff_eq, head?_lowerCalls_iff (by decide)]

/-- What stands in front of texts that differ in the case of called names is called alike. -/
theorem lowerCalls_congr {cs cs' : List Char} (before : List Char)
    (h : lowerCalls cs' = lowerCalls cs) :
    lowerCalls (before ++ cs') = lowerCalls (before ++ cs) := by
  induction before with
  | nil => exact h
  | cons c before ih =>
    rw [List.cons_append, List.cons_append, lowerCalls, lowerCalls, ih,
      ← inCall_lowerCalls (before ++ cs'), ih, inCall_lowerCalls]

/-- A name that is called may be written in any case. -/
theorem lowerCalls_recased (before : List Char) {word' : List Char} (spaces : Nat)
    (after : List Char) (hword : ∀ c ∈ word, Text.isAlphabetic c = true)
    (hcase : word'.map Char.toLower = word.map Char.toLower) :
    lowerCalls (before ++ (word' ++ (List.replicate spaces ' ' ++ '(' :: after))) =
      lowerCalls (before ++ (word ++ (List.replicate spaces ' ' ++ '(' :: after))) := by
  have hword' : ∀ c ∈ word', Text.isAlphabetic c = true := by
    intro c hc
    have hlower : c.toLower ∈ word.map Char.toLower := hcase ▸ List.mem_map_of_mem hc
    obtain ⟨d, hd, heq⟩ := List.mem_map.mp hlower
    rw [← Text.isAlphabetic_toLower, ← heq, Text.isAlphabetic_toLower, hword d hd]
  have hends : (List.replicate spaces ' ' ++ '(' :: after).head?.any Text.isAlphabetic = false := by
    cases spaces with
    | zero =>
      show Text.isAlphabetic '(' = false
      decide
    | succ n =>
      show Text.isAlphabetic ' ' = false
      decide
  have hopens : opensNext (List.replicate spaces ' ' ++ '(' :: after) = true := by
    rw [opensNext, dropWhile_append_stop (by simp) (by rfl)]
    rfl
  refine lowerCalls_congr before ?_
  rw [lowerCalls_name hword hends, lowerCalls_name hword' hends, if_pos hopens, if_pos hopens, hcase]

/-! ### Words before such texts -/

theorem pair_second_not_isAlphabetic {pair : Pair} (h : pair? c = some pair) :
    Text.isAlphabetic pair.second = false := by
  unfold pair? at h
  split at h <;> cases h <;> decide

namespace Word

/-- Only names are written with letters. -/
theorem not_isAlphabetic (h : Word afterValue word t rest) (ht : ∀ n, t ≠ .name n) :
    ∀ c ∈ word, Text.isAlphabetic c = false := by
  have hbegins {c : Char} (hc : mark? c ≠ none ∨ pair? c ≠ none ∨ c = '-') :
      Text.isAlphabetic c = false := by
    rw [Bool.eq_false_iff]
    intro halpha
    obtain ⟨-, hmark, hpair, hminus⟩ := begins_no_sign (.inl halpha)
    rcases hc with hc | hc | hc
    · exact hc hmark
    · exact hc hpair
    · exact hminus hc
  have hliteral (l : Literal) : ∀ c ∈ l.text, Text.isAlphabetic c = false := by
    have hdigits {cs : List Char} (h : ∀ c ∈ cs, c.isDigit = true) :
        ∀ c ∈ cs, Text.isAlphabetic c = false :=
      fun c hc => not_isAlphabetic_of_isDigit (h c hc)
    have hpointed : ∀ c ∈ Literal.pointed l.places, Text.isAlphabetic c = false := by
      unfold Literal.pointed
      split
      · nofun
      · exact List.forall_mem_cons.mpr ⟨by decide, hdigits l.isDigit_of_mem_places⟩
    refine List.forall_mem_append.mpr ⟨?_, List.forall_mem_append.mpr
      ⟨hdigits l.isDigit_of_mem_whole, hpointed⟩⟩
    split
    · exact List.forall_mem_singleton.mpr (by decide)
    · nofun
  cases h with
  | mark hmark => exact List.forall_mem_singleton.mpr (hbegins (.inl (by rw [hmark]; nofun)))
  | both hpair ht =>
    have hc := hbegins (.inr (.inl (by rw [hpair]; nofun)))
    have hsecond := pair_second_not_isAlphabetic hpair
    exact List.forall_mem_cons.mpr ⟨hc, List.forall_mem_singleton.mpr hsecond⟩
  | alone hpair ht =>
    exact List.forall_mem_singleton.mpr (hbegins (.inr (.inl (by rw [hpair]; nofun))))
  | minus => exact List.forall_mem_singleton.mpr (hbegins (.inr (.inr rfl)))
  | name => exact absurd rfl (ht _)
  | number l => exact hliteral l
  | pointed l =>
    refine List.forall_mem_append.mpr ⟨hliteral l, List.forall_mem_singleton.mpr ?_⟩
    decide

/-- A word may stand before a text whatever the case of the names that the text calls. -/
theorem lowerCalls (h : Word afterValue word t rest) :
    Word afterValue word t (lowerCalls rest) := by
  have hdigit := head?_lowerCalls Text.isDigit_toLower rest
  have hkeeps (c : Char) (hc : Text.isAlphabetic c = true) : keepsPoint c = true := by
    simp [keepsPoint, hc]
  have hcontinues (c : Char) (hc : Text.isAlphabetic c = true) : continuesPoint c = true := by
    simp [continuesPoint, hkeeps c hc]
  -- A word ends where the text behind it begins with something that does not go on with it. All
  -- these conditions look at one or two characters and do not tell cases apart.
  cases h with
  | mark hmark => exact .mark hmark _
  | both hpair ht => exact .both hpair ht _
  | alone hpair ht hrest =>
    refine .alone hpair ht fun hhead => hrest ?_
    exact (head?_lowerCalls_iff (pair_second_not_isAlphabetic hpair)).mp hhead
  | minus hrest => exact .minus (hdigit ▸ hrest)
  | name hne hword hrest =>
    exact .name hne hword (head?_lowerCalls Text.isAlphabetic_toLower rest ▸ hrest)
  | number l hsign hrest hpoint =>
    refine .number l hsign (hdigit ▸ hrest) fun hplaces hhead => ?_
    rw [tail_lowerCalls, head?_lowerCalls (@Text.eq_toLower keepsPoint true hkeeps)]
    exact hpoint hplaces ((head?_lowerCalls_iff (by decide)).mp hhead)
  | pointed l hsign hplaces hrest =>
    refine .pointed l hsign hplaces ?_
    rw [head?_lowerCalls (@Text.eq_toLower continuesPoint true hcontinues)]
    exact hrest

end Word

/-! ### Tokens -/

/-- Only a round bracket is read as one. -/
theorem eq_of_tokenAt_opening (h : tokenAt afterValue c cs = .token (.opening .round) rest) :
    c = '(' := by
  have hbracket : bracketAt? c = some (.opening .round) := (tokenAt_brackets h).1
  unfold bracketAt? at hbracket
  split at hbracket <;> first | rfl | cases hbracket

/-- A round bracket is the next token if it is what stands behind the next spaces. -/
theorem opensRound_scan (afterValue : Bool) (cs : List Char) :
    opensRound (scan afterValue cs).tokens = opensNext cs := by
  induction cs with
  | nil =>
    rw [scan_nil]
    rfl
  | cons c cs ih =>
    by_cases hspace : c = ' '
    · subst hspace
      rw [scan_space, ih]
      rfl
    · have hnext : opensNext (c :: cs) = (c == '(') := by
        rw [opensNext, List.dropWhile_cons_of_neg (by simpa using hspace)]
        rfl
      rw [hnext, scan_eq, next_of_ne_space hspace]
      by_cases hround : c = '('
      · subst hround
        rfl
      · rw [beq_eq_false_iff_ne.mpr hround]
        cases hstep : tokenAt afterValue c cs with
        | token t rest =>
          cases t with
          | opening b =>
            cases b with
            | round => exact absurd (eq_of_tokenAt_opening hstep) hround
            | square => rfl
          | _ => rfl
        | _ => rfl

/-- One token is read the same, but that a called name comes out in small letters. -/
theorem next_lowerCalls (h : next afterValue cs = .token t rest) :
    next afterValue (lowerCalls cs) = .token (t.lowerIf (opensNext rest)) (lowerCalls rest) := by
  obtain ⟨n, word, rfl, hword⟩ := next_eq_token_iff.mp h
  have hspaces : ∀ c ∈ List.replicate n ' ', Text.isAlphabetic c = false := by
    intro c hc
    rw [List.eq_of_mem_replicate hc]
    decide
  rw [lowerCalls_append hspaces, next_spaces]
  cases t with
  | name m =>
    obtain ⟨hne, hletters, hrest, rfl⟩ := hword.of_name
    rw [lowerCalls_name hletters hrest, Token.lowerIf]
    have hbehind : (lowerCalls rest).head?.any Text.isAlphabetic = false :=
      head?_lowerCalls Text.isAlphabetic_toLower rest ▸ hrest
    split
    · rw [Text.toLower_ofList]
      refine (Word.name ?_ ?_ hbehind).next
      · simpa using hne
      · simpa [Text.isAlphabetic_toLower] using hletters
    · exact (Word.name hne hletters hbehind).next
  | _ =>
    rw [lowerCalls_append (hword.not_isAlphabetic nofun)]
    exact hword.lowerCalls.next

/-- Where one text has no more tokens, the other has none. -/
theorem lowerCalls_of_done (h : next afterValue cs = .done) :
    next afterValue (lowerCalls cs) = .done := by
  induction cs with
  | nil => rfl
  | cons c cs ih =>
    by_cases hspace : c = ' '
    · subst hspace
      rw [lowerCalls, Text.toLower_of_not_isAlphabetic (by decide), ite_self]
      exact ih h
    · rw [next_of_ne_space hspace] at h
      exact absurd h (tokenAt_ne_done _ _ _)

/-- The tokens of the one text are the tokens of the other with called names in small letters. -/
theorem scan_lowerCalls (h : scan afterValue cs = ⟨tokens, none⟩) :
    scan afterValue (lowerCalls cs) = ⟨lowerCalled tokens, none⟩ := by
  -- Induction on the tokens; the text and what stood before it change with every token.
  induction tokens generalizing afterValue cs with
  | nil =>
    rw [scan_eq] at h
    cases hstep : next afterValue cs with
    | done =>
      rw [scan_eq, lowerCalls_of_done hstep]
      rfl
    | _ =>
      rw [hstep] at h
      cases h
  | cons t tokens ih =>
    rw [scan_eq] at h
    cases hstep : next afterValue cs with
    | token t' rest =>
      rw [hstep] at h
      obtain ⟨⟨rfl, htokens⟩, herror⟩ : (t' = t ∧ _ = tokens) ∧ _ = none := by
        simpa using h
      have hrest : scan t'.endsValue rest = ⟨tokens, none⟩ :=
        congr (congrArg Tokens.mk htokens) herror
      -- whether a name is called can be seen from the tokens behind it
      have hopens := opensRound_scan t'.endsValue rest
      rw [hrest] at hopens
      rw [scan_of_token (next_lowerCalls hstep), Token.endsValue_lowerIf, ih hrest, ← hopens]
      rfl
    | _ =>
      rw [hstep] at h
      cases h

/-- The alphabet does not depend on case, so the same character is refused. -/
theorem refusal?_lowerCalls (cs : List Char) : refusal? (lowerCalls cs) = refusal? cs := by
  induction cs with
  | nil => rfl
  | cons c cs ih =>
    cases hc : Text.isAlphabetic c with
    | true =>
      rw [refusal?_of_readable (isReadable_of_isAlphabetic hc), ← ih]
      refine refusal?_of_readable (isReadable_of_isAlphabetic ?_)
      split
      · rw [Text.isAlphabetic_toLower, hc]
      · exact hc
    | false =>
      -- the error of a sign looks one character ahead
      have hequal := @head?_lowerCalls_iff '=' cs (by decide)
      have hand := @head?_lowerCalls_iff '&' cs (by decide)
      have hor := @head?_lowerCalls_iff '|' cs (by decide)
      have hreadable : isReadable c (lowerCalls cs).head? = isReadable c cs.head? := by
        simp only [isReadable, hequal]
      have hrefusal : refusal c (lowerCalls cs).head? = refusal c cs.head? := by
        simp only [refusal, hand, hor]
      rw [lowerCalls, Text.toLower_of_not_isAlphabetic hc, ite_self, refusal?, refusal?, ih,
        hreadable, hrefusal]

end Scan

/-- A source in which called names are written in another case has tokens if the source has them,
and these differ in the case of called names. -/
theorem tokenize_of_lowerCalls {source source' : String} {tokens : List Token}
    (h : lowerCalls source'.toList = lowerCalls source.toList)
    (htokens : tokenize source = .ok tokens) :
    ∃ tokens', tokenize source' = .ok tokens' ∧ lowerCalled tokens' = lowerCalled tokens := by
  have hscan := tokenize_eq_ok_iff.mp htokens
  have herror : (Scan.scan false source'.toList).error? = none := by
    rw [Scan.scan_error, ← Scan.refusal?_lowerCalls, h, Scan.refusal?_lowerCalls,
      ← Scan.scan_error false, hscan]
  obtain ⟨tokens', hscan'⟩ : ∃ tokens', Scan.scan false source'.toList = ⟨tokens', none⟩ :=
    ⟨_, congrArg (Scan.Tokens.mk _) herror⟩
  have hlower := Scan.scan_lowerCalls hscan'
  rw [h, Scan.scan_lowerCalls hscan] at hlower
  exact ⟨tokens', tokenize_eq_ok_iff.mpr hscan', (congrArg Scan.Tokens.tokens hlower).symm⟩

end PixelCalc
