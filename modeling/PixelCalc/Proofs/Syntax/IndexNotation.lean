import PixelCalc.Evaluation
import PixelCalc.Proofs.Syntax.Brackets
import PixelCalc.Proofs.Syntax.Lookahead

/-!
# An index is a call

`x[a, b]` is another way to write `x . SubMat (a, b)`: a source in which every bracket is closed by
its own kind has the same tree when all its indices are written as calls. It may be no tree at all;
then it has the same error.

- `spellIndices`: a source with its indices written as calls.
- `scan_brackets`: the bracket tokens of a source are its bracket characters.
- `scan_spelled`: scanning, with the change to the characters pushed to the tokens.
- `nestFrom_spelled`: nesting, with the tokens' change pushed to the brackets that are open.
- `parse_spellIndices`: the tree, and the value in every environment.
-/

namespace PixelCalc

/-! ### The brackets of a source -/

/-- The bracket that a character is. -/
def bracketAt? : Char → Option Token
  | '(' => some (.opening .round)
  | ')' => some (.closing .round)
  | '[' => some (.opening .square)
  | ']' => some (.closing .square)
  | _ => none

/-- The token is a bracket. -/
def Token.isBracket : Token → Bool
  | .opening _ | .closing _ => true
  | _ => false

/-- Every bracket of the source is closed by its own kind. -/
def BracketsClosed (source : String) : Prop :=
  Nesting.scanBrackets [] (source.toList.filterMap bracketAt?) = some []

namespace Nesting

/-- Only the brackets matter to the scan. -/
theorem scanBrackets_filter (stack : List Bracket) (tokens : List Token) :
    scanBrackets stack (tokens.filter Token.isBracket) = scanBrackets stack tokens := by
  induction tokens generalizing stack with
  | nil => rfl
  | cons t tokens ih =>
    cases ht : t.isBracket with
    | true =>
      rw [List.filter_cons_of_pos ht, scanBrackets, scanBrackets]
      exact congrArg _ (funext ih)
    | false =>
      have hstack : stackAfter stack t = some stack := by
        cases t <;> first | rfl | cases ht
      rw [List.filter_cons_of_neg (Bool.eq_false_iff.mp ht), ih, scanBrackets, hstack]
      rfl

end Nesting

namespace Scan

variable {p : Char → Bool} {c d : Char} {cs rest : List Char} {t : Token} {afterValue : Bool}

theorem isDelimiter_of_bracketAt? (h : bracketAt? c = some t) : isDelimiter c = true := by
  unfold bracketAt? at h
  split at h <;> first | decide | cases h

/-- What continues a token is no bracket. -/
theorem bracketAt?_of_not_delimiter (hd : isDelimiter d = false) : bracketAt? d = none := by
  cases hbracket : bracketAt? d with
  | none => rfl
  | some t =>
    rw [isDelimiter_of_bracketAt? hbracket] at hd
    cases hd

theorem bracketAt?_of_continues (hp : Continues p) (hc : p c = true) : bracketAt? c = none := by
  apply bracketAt?_of_not_delimiter
  cases hdelimiter : isDelimiter c with
  | false => rfl
  | true =>
    rw [hp c hdelimiter] at hc
    cases hc

/-- A name or a run of digits takes no bracket with it. -/
theorem dropWhile_brackets (hp : Continues p) (cs : List Char) :
    (cs.dropWhile p).filterMap bracketAt? = cs.filterMap bracketAt? := by
  induction cs with
  | nil => rfl
  | cons c cs ih =>
    rw [List.dropWhile_cons]
    split
    · rename_i hc
      rw [ih, List.filterMap_cons_none (bracketAt?_of_continues hp hc)]
    · rfl

theorem fraction_brackets (cs : List Char) :
    (fraction cs).2.filterMap bracketAt? = cs.filterMap bracketAt? := by
  unfold fraction
  split
  · split
    · rw [dropWhile_brackets continues_isDigit, List.filterMap_cons_none (a := '.') rfl]
    · split
      · rfl
      · rw [List.filterMap_cons_none (a := '.') rfl]
  · rfl
  · rfl

theorem scanNumber_brackets (cs : List Char) :
    (scanNumber cs).2.filterMap bracketAt? = cs.filterMap bracketAt? :=
  (fraction_brackets _).trans (dropWhile_brackets continues_isDigit cs)

/-- The signs of one character are brackets exactly if their characters are. -/
theorem bracketAt?_of_mark (h : mark? c = some t) :
    bracketAt? c = if t.isBracket then some t else none := by
  unfold mark? at h
  split at h <;> cases h <;> rfl

theorem bracketAt?_of_not_mark (h : mark? c = none) : bracketAt? c = none := by
  unfold bracketAt?
  split <;> first | rfl | cases h

/-- A sign that can have a second character is no bracket. -/
theorem isBracket_of_pair {pair : Pair} (h : pair? c = some pair) {reading : Reading}
    (hreading : reading = pair.both ∨ reading = pair.alone)
    (htoken : Step.ofReading reading cs = .token t rest) : t.isBracket = false := by
  unfold pair? at h
  split at h <;> cases h <;> rcases hreading with rfl | rfl <;> cases htoken <;> rfl

/-- A token is a bracket exactly if it begins with one, and no other bracket is read with it. -/
theorem tokenAt_brackets (h : tokenAt afterValue c cs = .token t rest) :
    (bracketAt? c = if t.isBracket then some t else none) ∧
      rest.filterMap bracketAt? = cs.filterMap bracketAt? := by
  unfold tokenAt at h
  split at h
  · rename_i hmark
    cases h
    exact ⟨bracketAt?_of_mark hmark, rfl⟩
  · rename_i hmark
    rw [bracketAt?_of_not_mark hmark]
    suffices t.isBracket = false ∧ rest.filterMap bracketAt? = cs.filterMap bracketAt? from
      ⟨by rw [this.1]; rfl, this.2⟩
    split at h
    · rename_i pair hpair
      split at h
      · rename_i hhead
        refine ⟨isBracket_of_pair hpair (.inl rfl) h, ?_⟩
        rw [ofReading_eq_token h]
        obtain ⟨rest', rfl⟩ := List.head?_eq_some_iff.mp hhead
        rw [List.tail_cons,
          List.filterMap_cons_none (bracketAt?_of_not_delimiter (isDelimiter_second hpair))]
      · exact ⟨isBracket_of_pair hpair (.inr rfl) h, by rw [ofReading_eq_token h]⟩
    · split at h
      · split at h
        · cases h
          exact ⟨rfl, scanNumber_brackets cs⟩
        · cases h
          exact ⟨rfl, rfl⟩
      · split at h
        · rename_i halpha
          cases h
          rw [List.dropWhile_cons_of_pos halpha]
          exact ⟨rfl, dropWhile_brackets continues_isAlphabetic cs⟩
        · split at h
          · rename_i hdigit
            cases h
            refine ⟨rfl, (scanNumber_brackets (c :: cs)).trans ?_⟩
            rw [List.filterMap_cons_none (bracketAt?_of_continues continues_isDigit hdigit)]
          · cases h

/-- The bracket tokens of a text without an error are its bracket characters. -/
theorem scan_brackets (afterValue : Bool) (cs : List Char) :
    (scan afterValue cs).error? = none →
      (scan afterValue cs).tokens.filter Token.isBracket = cs.filterMap bracketAt? := by
  match cs with
  | [] =>
    intro _
    rw [scan_nil]
    rfl
  | c :: cs =>
    by_cases hspace : c = ' '
    · subst hspace
      rw [scan_space]
      exact scan_brackets afterValue cs
    · rw [scan_eq, next_of_ne_space hspace]
      cases hstep : tokenAt afterValue c cs with
      | done => exact absurd hstep (tokenAt_ne_done afterValue c cs)
      | stop e =>
        intro h
        cases h
      | token t rest =>
        intro h
        have hlength := tokenAt_length hstep
        have ih := scan_brackets t.endsValue rest h
        obtain ⟨hc, hrest⟩ := tokenAt_brackets hstep
        -- along the recursion of the scan: the character is a bracket iff the token is, and the
        -- token takes no other with it
        cases ht : t.isBracket with
        | true =>
          rw [ht] at hc
          rw [List.filter_cons_of_pos ht, List.filterMap_cons_some hc, ih, hrest]
        | false =>
          rw [ht] at hc
          rw [List.filter_cons_of_neg (Bool.eq_false_iff.mp ht), List.filterMap_cons_none hc, ih, hrest]
termination_by cs.length

end Scan

/-! ### Indices spelled out -/

/-- A character as it is written without square brackets. -/
def spellChar : Char → List Char
  | '[' => [' ', '.', ' ', 'S', 'u', 'b', 'M', 'a', 't', ' ', '(']
  | ']' => [')']
  | c => [c]

/-- The source with every index written as a call: `[` becomes the text ` . SubMat (` and `]`
becomes `)`. -/
def spellIndices (source : String) : String :=
  String.ofList (source.toList.flatMap spellChar)

/-- The tokens that stand for a token when indices are written as calls. -/
def spellToken : Token → List Token
  | .opening .square => [.dot, .name indexFunction, .opening .round]
  | .closing .square => [.closing .round]
  | t => [t]

namespace Scan

variable {c : Char} {cs rest : List Char} {t : Token} {afterValue : Bool}

/-- Only square brackets are spelled out. -/
theorem spellChar_of_ne (hopen : c ≠ '[') (hclose : c ≠ ']') : spellChar c = [c] := by
  unfold spellChar
  split
  · exact absurd rfl hopen
  · exact absurd rfl hclose
  · rfl

/-- Square brackets are delimiters, and so are the characters that take their place. -/
theorem keepsTokens_spell : KeepsTokens fun cs => cs.flatMap spellChar
  | [] => .inr ⟨ends_nil, ends_nil⟩
  | c :: rest => by
    by_cases hopen : c = '['
    · subst hopen
      exact .inr ⟨ends_cons_iff.mpr (by decide), ends_cons_iff.mpr (by decide)⟩
    · by_cases hclose : c = ']'
      · subst hclose
        exact .inr ⟨ends_cons_iff.mpr (by decide), ends_cons_iff.mpr (by decide)⟩
      · refine .inl ⟨c, rest, rfl, ?_⟩
        show (c :: rest).flatMap spellChar = c :: rest.flatMap spellChar
        rw [List.flatMap_cons, spellChar_of_ne hopen hclose]
        rfl

/-- Other characters than square brackets begin tokens that are written as before. -/
theorem spellToken_of_tokenAt (h : tokenAt afterValue c cs = .token t rest) (hopen : c ≠ '[')
    (hclose : c ≠ ']') : spellToken t = [t] := by
  have hbracket := (tokenAt_brackets h).1
  cases t with
  | opening b =>
    cases b with
    | round => rfl
    | square =>
      unfold bracketAt? at hbracket
      split at hbracket <;> first | exact absurd rfl hopen | cases hbracket
  | closing b =>
    cases b with
    | round => rfl
    | square =>
      unfold bracketAt? at hbracket
      split at hbracket <;> first | exact absurd rfl hclose | cases hbracket
  | _ => rfl

/-- What is written in the place of `[` has three tokens, and ends like `[` with no value. -/
theorem scan_spelled_opening (afterValue : Bool) (cs : List Char) :
    scan afterValue (spellChar '[' ++ cs) =
      ⟨spellToken (.opening .square) ++ (scan false cs).tokens, (scan false cs).error?⟩ := by
  have hdot : next afterValue (spellChar '[' ++ cs) =
      .token .dot (" SubMat (".toList ++ cs) := rfl
  have hname : next Token.dot.endsValue (" SubMat (".toList ++ cs) =
      .token (.name indexFunction) (" (".toList ++ cs) := rfl
  have hopening : next (Token.name indexFunction).endsValue (" (".toList ++ cs) =
      .token (.opening .round) cs := rfl
  rw [scan_of_token hdot, scan_of_token hname, scan_of_token hopening]
  rfl

/-- Spelling out the indices of a text spells out its square brackets and changes no other token. -/
theorem scan_spelled (afterValue : Bool) (cs : List Char) :
    scan afterValue (cs.flatMap spellChar) =
      ⟨(scan afterValue cs).tokens.flatMap spellToken, (scan afterValue cs).error?⟩ := by
  match cs with
  | [] =>
    rw [List.flatMap_nil, scan_nil]
    rfl
  | c :: cs =>
    by_cases hspace : c = ' '
    · subst hspace
      show scan afterValue (' ' :: cs.flatMap spellChar) = _
      rw [scan_space, scan_space]
      exact scan_spelled afterValue cs
    · by_cases hopen : c = '['
      · subst hopen
        have hstep : next afterValue ('[' :: cs) = .token (.opening .square) cs := rfl
        rw [List.flatMap_cons, scan_spelled_opening, scan_spelled false cs, scan_of_token hstep]
        rfl
      · by_cases hclose : c = ']'
        · subst hclose
          have hstep : next afterValue (']' :: cs) = .token (.closing .square) cs := rfl
          have hspelled : next afterValue (')' :: cs.flatMap spellChar) =
              .token (.closing .round) (cs.flatMap spellChar) := rfl
          rw [List.flatMap_cons]
          show scan afterValue (')' :: cs.flatMap spellChar) = _
          rw [scan_of_token hspelled, scan_of_token hstep]
          show Tokens.mk (_ :: (scan true (cs.flatMap spellChar)).tokens)
            (scan true (cs.flatMap spellChar)).error? = _
          rw [scan_spelled true cs]
          rfl
        · rw [List.flatMap_cons, spellChar_of_ne hopen hclose, List.singleton_append, scan_eq,
            next_of_ne_space hspace, tokenAt_keepsTokens keepsTokens_spell, scan_eq afterValue,
            next_of_ne_space hspace]
          -- no other token sees the difference, which begins behind a delimiter
          cases hstep : tokenAt afterValue c cs with
          | token t rest =>
            have hlength := tokenAt_length hstep
            show Tokens.mk (_ :: (scan _ (rest.flatMap spellChar)).tokens) _ = _
            rw [scan_spelled t.endsValue rest]
            show _ = Tokens.mk (spellToken t ++ _) _
            rw [spellToken_of_tokenAt hstep hopen hclose]
            rfl
          | _ => rfl
termination_by cs.length

end Scan

/-- Spelling out the source is spelling out its tokens, and the same character is refused. -/
theorem tokenize_spelled (source : String) :
    tokenize (spellIndices source) = (tokenize source).map fun tokens =>
      tokens.flatMap spellToken := by
  unfold tokenize Scan.ofSource spellIndices
  rw [String.toList_ofList, Scan.scan_spelled]
  cases h : (Scan.scan false source.toList).error? with
  | none => simp [h, Except.map]
  | some e => simp [h, Except.map]

namespace Nesting

variable {level : Level} {outer : List (Bracket × Level)} {tokens : List Token}

theorem push_push (level : Level) (items items' : List Item) :
    (level.push items).push items' = level.push (items ++ items') := by
  unfold Level.push
  rw [List.append_assoc]

/-- An open bracket and the level around it, when indices are written as calls: what stands before
the arguments has been read already. -/
def spellOpen : Bracket × Level → Bracket × Level
  | (.square, around) => (.round, around.push [.dot, .expr (.name indexFunction)])
  | (.round, around) => (.round, around)

/-- Tokens that close all open brackets have the same group when indices are written as calls. -/
theorem nestFrom_spelled (h : scanBrackets (outer.map Prod.fst) tokens = some []) :
    nestFrom level (outer.map spellOpen) (tokens.flatMap spellToken) =
      nestFrom level outer tokens := by
  -- Induction on the tokens. The open brackets are spelled out as well: a square one has pushed the
  -- dot and the name before it opens.
  induction tokens generalizing level outer with
  | nil =>
    cases List.map_eq_nil_iff.mp (Option.some.inj h)
    rfl
  | cons t tokens ih =>
    obtain ⟨stack, hstack, h⟩ := scanBrackets_cons_iff.mp h
    cases t with
    | opening b =>
      cases hstack
      have ih := @ih .start ((b, level) :: outer) h
      cases b with
      | round => exact ih
      | square =>
        show nestFrom .start ((.round, (level.push [.dot]).push [.expr (.name indexFunction)]) ::
          outer.map spellOpen) (tokens.flatMap spellToken) = _
        rw [push_push]
        exact ih
    | closing b =>
      cases outer with
      | nil => cases hstack
      | cons around outer =>
        obtain ⟨opened, around⟩ := around
        by_cases hopened : opened = b
        · subst hopened
          have houter : outer.map Prod.fst = stack := by
            simpa [stackAfter] using hstack
          subst houter
          rw [nestFrom, if_pos rfl, ← ih h]
          cases opened with
          | round => rfl
          | square =>
            rw [show bracketItems .square level.close =
              [.dot, .expr (.name indexFunction)] ++ [.expr level.close.toExpr] from rfl, ← push_push]
            rfl
        · simp [stackAfter, hopened] at hstack
    | _ =>
      cases hstack
      exact ih h

theorem nest_spelled (h : scanBrackets [] tokens = some []) :
    nest (tokens.flatMap spellToken) = nest tokens :=
  @nestFrom_spelled .start [] tokens h

end Nesting

/-- **An index is a call.** A source whose brackets are all closed by their own kind has the same
tree, or the same syntax error, when its indices are written as calls, and so the same value in
every environment, with the same effect. -/
theorem parse_spellIndices (source : String) (h : BracketsClosed source) :
    parse (spellIndices source) = parse source ∧
      ∀ env, evaluate env (spellIndices source) = evaluate env source := by
  have hparse : parse (spellIndices source) = parse source := by
    unfold parse
    rw [tokenize_spelled]
    cases htokens : tokenize source with
    | error e => rfl
    | ok tokens =>
      have hscan := tokenize_eq_ok_iff.mp htokens
      have hbrackets := Scan.scan_brackets false source.toList (by rw [hscan])
      rw [hscan] at hbrackets
      have hclosed : Nesting.scanBrackets [] tokens = some [] := by
        rw [← Nesting.scanBrackets_filter, hbrackets]
        exact h
      show (nest (tokens.flatMap spellToken) >>= _) = (nest tokens >>= _)
      rw [Nesting.nest_spelled hclosed]
  refine ⟨hparse, fun env => ?_⟩
  unfold evaluate
  rw [hparse]

/-- Indices one after the other, within another, after a point, and with nothing before them. -/
theorem parse_spellIndices_chain :
    BracketsClosed "x[y[1.], -2][..] + [3]" ∧
      spellIndices "x[y[1.], -2][..] + [3]" =
        "x . SubMat (y . SubMat (1.), -2) . SubMat (..) +  . SubMat (3)" ∧
      parse (spellIndices "x[y[1.], -2][..] + [3]") = parse "x[y[1.], -2][..] + [3]" := by
  have hclosed : BracketsClosed "x[y[1.], -2][..] + [3]" := by
    unfold BracketsClosed
    decide
  exact ⟨hclosed, by decide, (parse_spellIndices _ hclosed).1⟩

end PixelCalc
