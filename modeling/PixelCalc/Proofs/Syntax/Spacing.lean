import PixelCalc.Proofs.Syntax.Word

/-!
# Spaces between tokens

A space ends the token before it, and all that it carries over to the token behind it is whether a
value has ended. Further spaces between tokens change nothing, with one exception: a point that
stands close behind a number without a point, as in `1.abs()`, is that number's own as soon as a
space stands behind it.

- `Piece`, `Cut`: the slices that the tokens of a text are read from, one behind the other.
- `spread`: the text with further spaces in front of its slices.
- `parted`: the exception; `readings` are the tokens that are then read.
- `scan_spread`: the tokens of a text with further spaces; `readings_eq_iff` says when these are the
  tokens of the text.
- `scan_spaced`: the tokens of two texts with a space between them, and of a text with spaces
  between its tokens.
-/

namespace PixelCalc
namespace Scan

/-! ### Texts before a space -/

variable {afterValue : Bool} {cs rest behind word : List Char} {tokens : List Token} {t : Token}

theorem ends_space (cs : List Char) : Ends (' ' :: cs) :=
  ends_cons_iff.mpr (by decide)

/-- A text with an error has that error, and the tokens before it, whatever follows a delimiter
behind the text. -/
theorem scan_append_error (hbehind : Ends behind) (afterValue : Bool) (cs : List Char)
    (h : (scan afterValue cs).error? ≠ none) :
    scan afterValue (cs ++ behind) = scan afterValue cs := by
  have hnext := next_append hbehind afterValue cs
  rw [scan_eq afterValue cs] at h
  rw [scan_eq, hnext, scan_eq afterValue cs]
  -- along the recursion of the scan: a token before a delimiter is the same, and the error is met
  -- behind it
  cases hstep : next afterValue cs with
  | done =>
    rw [hstep] at h
    exact absurd rfl h
  | stop e => rfl
  | token t rest =>
    rw [hstep] at h
    have hlength := next_length hstep
    have ih := scan_append_error hbehind t.endsValue rest h
    show Tokens.mk (t :: (scan t.endsValue (rest ++ behind)).tokens) _ = _
    rw [ih]
termination_by cs.length

/-! ### Slices -/

/-- A slice of a text that a token is read from, together with the spaces before it, and a number of
further spaces to put in front. -/
structure Piece where
  gap : Nat
  slice : List Char
  token : Token

/-- The text is cut into the slices that its tokens take one after the other, and what is left
behind them. -/
inductive Cut : Bool → List Char → List Piece → List Char → Prop
  | done {afterValue : Bool} {behind : List Char} (h : next afterValue behind = .done) :
      Cut afterValue behind [] behind
  | token {afterValue : Bool} {rest behind : List Char} {pieces : List Piece} (p : Piece)
      (h : next afterValue (p.slice ++ rest) = .token p.token rest)
      (hrest : Cut p.token.endsValue rest pieces behind) :
      Cut afterValue (p.slice ++ rest) (p :: pieces) behind

/-- The text of the pieces, each with its further spaces in front of it. -/
def spread (behind : List Char) : List Piece → List Char
  | [] => behind
  | p :: pieces => List.replicate p.gap ' ' ++ (p.slice ++ spread behind pieces)

/-- The spaces in front of `r` part it from a point that stands close behind a number. -/
def parted (p q r : Piece) : Bool :=
  Word.isWhole p.slice p.token && q.slice == ['.'] && q.gap == 0 && r.gap != 0

/-- No piece is parted from a point that stands close behind a number. -/
def Apart (pieces : List Piece) : Prop :=
  ∀ p q r, [p, q, r] <:+: pieces → parted p q r = false

/-- The tokens of spread pieces. A point that the piece behind it is parted from belongs to the
number before it. -/
def readings : List Piece → List Token
  | p :: q :: r :: pieces =>
    if parted p q r then p.token :: readings (r :: pieces)
    else p.token :: readings (q :: r :: pieces)
  | pieces => pieces.map Piece.token

variable {p q r : Piece} {pieces : List Piece}

/-- A text that is cut into pieces has their tokens. -/
theorem Cut.scan (h : Cut afterValue cs pieces behind) :
    Scan.scan afterValue cs = ⟨pieces.map Piece.token, none⟩ := by
  induction h with
  | done h =>
    rw [scan_eq, h]
    rfl
  | token p h _ ih =>
    rw [scan_of_token h, ih]
    rfl

/-- A text without an error is cut into slices, before which any spaces may be put. -/
theorem exists_cut {gaps : List Nat} (h : Scan.scan afterValue cs = ⟨tokens, none⟩)
    (hgaps : gaps.length = tokens.length) :
    ∃ pieces behind, Cut afterValue cs pieces behind ∧ pieces.map Piece.gap = gaps := by
  -- Induction on the tokens. Each one is cut off with the spaces before it, and the gap is chosen
  -- freely.
  induction tokens generalizing afterValue cs gaps with
  | nil =>
    rw [scan_eq] at h
    cases hstep : next afterValue cs with
    | done => exact ⟨[], cs, .done hstep, (List.eq_nil_of_length_eq_zero hgaps).symm⟩
    | _ =>
      rw [hstep] at h
      cases h
  | cons t tokens ih =>
    rw [scan_eq] at h
    cases hstep : next afterValue cs with
    | token t' rest =>
      rw [hstep] at h
      obtain ⟨⟨rfl, htokens⟩, herror⟩ : (t' = t ∧ _ = tokens) ∧ _ = none := by
        simpa using h
      obtain ⟨gap, gaps, rfl⟩ := List.exists_cons_of_length_eq_add_one hgaps
      have hrest : Scan.scan t'.endsValue rest = ⟨tokens, none⟩ :=
        congr (congrArg Tokens.mk htokens) herror
      obtain ⟨pieces, behind, hcut, rfl⟩ := ih hrest (Nat.succ.inj hgaps)
      obtain ⟨n, word, rfl, -⟩ := next_eq_token_iff.mp hstep
      rw [← List.append_assoc] at hstep ⊢
      let p : Piece := ⟨gap, List.replicate n ' ' ++ word, t'⟩
      exact ⟨p :: pieces, behind, .token p hstep hcut, rfl⟩
    | _ =>
      rw [hstep] at h
      cases h

/-- A slice is a word behind spaces. -/
theorem exists_slice_word (h : next afterValue (p.slice ++ rest) = .token t rest) :
    ∃ n word, p.slice = List.replicate n ' ' ++ word ∧ Word afterValue word t rest := by
  obtain ⟨n, word, htext, hword⟩ := next_eq_token_iff.mp h
  rw [← List.append_assoc] at htext
  exact ⟨n, word, List.append_cancel_right htext, hword⟩

theorem slice_ne_nil (h : next afterValue (p.slice ++ rest) = .token t rest) : p.slice ≠ [] := by
  obtain ⟨n, word, hslice, hword⟩ := exists_slice_word h
  rw [hslice]
  exact fun hnil => hword.ne_nil (List.append_eq_nil_iff.mp hnil).2

/-! ### Reading spread pieces -/

/-- Without further spaces in front, spread pieces begin as their text does. -/
theorem head?_spread (h : Cut afterValue cs pieces behind)
    (hgap : ∀ r pieces', pieces = r :: pieces' → r.gap = 0) :
    (spread behind pieces).head? = cs.head? := by
  cases h with
  | done => rfl
  | @token _ rest _ pieces p h _ =>
    obtain ⟨c, cs, hslice⟩ := List.exists_cons_of_ne_nil (slice_ne_nil h)
    rw [spread, hgap p pieces rfl, hslice]
    rfl

/-- A word may stand before the spread pieces of the text behind it, unless they part a piece from
the point behind the word. -/
theorem word_spread (h : Word afterValue word p.token rest)
    (hwhole : Word.isWhole p.slice p.token = Word.isWhole word p.token)
    (hrest : Cut p.token.endsValue rest pieces behind)
    (hparted : ∀ q r pieces', pieces = q :: r :: pieces' → parted p q r = false) :
    Word afterValue word p.token (spread behind pieces) := by
  cases hrest with
  | done => exact h
  | @token _ rest _ pieces q hq hrest =>
    by_cases hgap : q.gap = 0
    · obtain ⟨c, cs, hslice⟩ := List.exists_cons_of_ne_nil (slice_ne_nil hq)
      have htext : spread behind (q :: pieces) = q.slice ++ spread behind pieces := by
        rw [spread, hgap]
        rfl
      rw [htext]
      refine h.of_looksAlike ⟨by rw [hslice]; rfl, fun hword hhead => ?_⟩
      rw [hslice] at hhead ⊢
      cases Option.some.inj hhead
      cases cs with
      | cons d cs => rfl
      | nil =>
        refine head?_spread hrest fun r pieces' hpieces => ?_
        have hr := hparted q r pieces' (congrArg (q :: ·) hpieces)
        simpa [parted, hwhole, hword, hslice, hgap] using hr
    · obtain ⟨n, hn⟩ := Nat.exists_eq_succ_of_ne_zero hgap
      rw [spread, hn]
      exact h.of_ends (ends_space _)

/-- Reading a spread text takes the first piece as it stands, unless a point comes to stand apart
from what follows it. -/
theorem next_spread (h : Cut afterValue cs (p :: pieces) behind)
    (hparted : ∀ q r pieces', pieces = q :: r :: pieces' → parted p q r = false) :
    next afterValue (spread behind (p :: pieces)) = .token p.token (spread behind pieces) := by
  cases h with
  | token _ hp hrest =>
    obtain ⟨n, word, hslice, hword⟩ := exists_slice_word hp
    have hwhole : Word.isWhole p.slice p.token = Word.isWhole word p.token := by
      rw [hslice, Word.isWhole_spaces]
    rw [spread, next_spaces, hslice, List.append_assoc, next_spaces]
    exact (word_spread hword hwhole hrest hparted).next

/-- A point is parted from what follows if it comes right after a number without one, and spaces are
put behind it. -/
theorem parted_iff :
    parted p q r = true ↔ Word.isWhole p.slice p.token = true ∧ q.slice = ['.'] ∧ q.gap = 0 ∧
      r.gap ≠ 0 := by
  simp [parted, and_assoc]

/-- The kind of the token before matters to the first piece only. -/
theorem Cut.of_next_eq {afterValue' : Bool} (h : Cut afterValue cs pieces behind)
    (hnext : next afterValue' cs = next afterValue cs) : Cut afterValue' cs pieces behind := by
  cases h with
  | done h => exact .done (hnext.trans h)
  | token p h hrest => exact .token p (hnext.trans h) hrest

/-- A name is read alike whatever stands before it. -/
theorem next_of_letter (h : cs.head?.any Text.isAlphabetic = true) (afterValue afterValue' : Bool) :
    next afterValue cs = next afterValue' cs := by
  cases cs with
  | nil => cases h
  | cons c cs =>
    have hspace := (begins_no_sign (.inl h)).1
    rw [next_of_ne_space hspace, next_of_ne_space hspace, tokenAt_of_isAlphabetic h,
      tokenAt_of_isAlphabetic h]

/-- A point that is a slice of its own has no other point behind it. -/
theorem head?_ne_point (h : next afterValue ('.' :: rest) = .token t rest) :
    rest.head? ≠ some '.' := by
  intro hhead
  obtain ⟨tail, rfl⟩ := List.head?_eq_some_iff.mp hhead
  have htail : tail = '.' :: tail := (Step.token.inj h).2
  exact absurd (congrArg List.length htail) (Nat.ne_of_lt (Nat.lt_succ_self _))

/-- A number takes the point behind it when the next piece is parted from the point. That piece is
a name, which is read alike behind a number and behind a point. -/
theorem next_spread_parted (h : Cut afterValue cs (p :: q :: r :: pieces) behind)
    (hparted : parted p q r = true) :
    next afterValue (spread behind (p :: q :: r :: pieces)) =
        .token p.token (spread behind (r :: pieces)) ∧
      ∃ cs', Cut p.token.endsValue cs' (r :: pieces) behind := by
  obtain ⟨hwhole, hpoint, hgap, hr⟩ := parted_iff.mp hparted
  cases h with
  | token _ hp hrest =>
    cases hrest with
    | @token _ rest _ _ _ hq hrest =>
      obtain ⟨n, word, hslice, hword⟩ := exists_slice_word hp
      rw [hslice, Word.isWhole_spaces] at hwhole
      rw [hpoint] at hq hword
      obtain ⟨hkeeps, htakes⟩ := hword.takes_point hwhole rfl
      obtain ⟨k, hk⟩ := Nat.exists_eq_succ_of_ne_zero hr
      constructor
      -- the point stands before a space now, so the number takes it
      · have htext : spread behind (p :: q :: r :: pieces) = List.replicate p.gap ' ' ++
            (List.replicate n ' ' ++ ((word ++ ['.']) ++ spread behind (r :: pieces))) := by
          rw [spread, spread, hslice, hpoint, hgap]
          simp
        have hends : (spread behind (r :: pieces)).head?.any continuesPoint = false := by
          rw [spread, hk]
          rfl
        rw [htext, next_spaces, next_spaces]
        exact (htakes hends).next
      -- before, the point was followed by a letter, and that is read the same behind a value and
      -- elsewhere
      · have hletter : rest.head?.any Text.isAlphabetic = true := by
          cases rest with
          | nil => cases hkeeps
          | cons c rest =>
            have hne : c ≠ '.' := fun heq => head?_ne_point hq (congrArg some heq)
            have hc : c = '.' ∨ Text.isAlphabetic c = true := by
              simpa [keepsPoint] using hkeeps
            exact hc.resolve_left hne
        exact ⟨rest, hrest.of_next_eq (next_of_letter hletter _ _)⟩

theorem parted_cases (p : Piece) (pieces : List Piece) :
    (∃ q r pieces', pieces = q :: r :: pieces' ∧ parted p q r = true) ∨
      ∀ q r pieces', pieces = q :: r :: pieces' → parted p q r = false := by
  by_cases h : ∃ q r pieces', pieces = q :: r :: pieces' ∧ parted p q r = true
  · exact .inl h
  · exact .inr fun q r pieces' hpieces =>
      Bool.eq_false_iff.mpr fun hparted => h ⟨q, r, pieces', hpieces, hparted⟩

/-- Where nothing is parted the piece is read as its token. -/
theorem readings_cons (hparted : ∀ q r pieces', pieces = q :: r :: pieces' → parted p q r = false) :
    readings (p :: pieces) = p.token :: readings pieces := by
  match pieces with
  | [] => rfl
  | [q] => rfl
  | q :: r :: pieces => rw [readings, hparted q r pieces rfl, if_neg Bool.false_ne_true]

/-- The tokens of a text with further spaces between its slices. -/
theorem scan_spread (pieces : List Piece) {afterValue : Bool} {cs : List Char}
    (h : Cut afterValue cs pieces behind) :
    Scan.scan afterValue (spread behind pieces) = ⟨readings pieces, none⟩ := by
  match pieces with
  | [] =>
    cases h with
    | done h => exact Cut.scan (.done h)
  | p :: pieces =>
    rcases parted_cases p pieces with ⟨q, r, pieces', rfl, hparted⟩ | hparted
    · obtain ⟨hnext, cs', hrest⟩ := next_spread_parted h hparted
      rw [scan_of_token hnext, scan_spread (r :: pieces') hrest, readings, hparted, if_pos rfl]
    · have hnext := next_spread h hparted
      cases h with
      | token _ _ hrest => rw [scan_of_token hnext, scan_spread pieces hrest, readings_cons hparted]

/-! ### When the tokens are the same -/

/-- Some pieces are read together, none is read as two tokens. -/
theorem length_readings (pieces : List Piece) : (readings pieces).length ≤ pieces.length := by
  fun_induction readings pieces with
  | case1 p q r pieces _ ih =>
    simp only [List.length_cons] at ih ⊢
    omega
  | case2 p q r pieces _ ih => exact Nat.succ_le_succ ih
  | case3 pieces => exact Nat.le_of_eq (List.length_map _)

theorem apart_nil : Apart [] := by
  intro p q r h
  cases List.infix_nil.mp h

/-- That no point is parted can be told from the front. -/
theorem apart_cons_iff :
    Apart (p :: pieces) ↔
      (∀ q r pieces', pieces = q :: r :: pieces' → parted p q r = false) ∧ Apart pieces := by
  constructor
  · intro h
    refine ⟨?_, fun p' q r hinfix => h p' q r (List.infix_cons hinfix)⟩
    rintro q r pieces' rfl
    exact h p q r (List.prefix_append [p, q, r] pieces').isInfix
  · rintro ⟨hfront, hpieces⟩ p' q r hinfix
    rcases List.infix_cons_iff.mp hinfix with ⟨pieces', heq⟩ | hinfix
    · cases heq
      exact hfront q r pieces' rfl
    · exact hpieces p' q r hinfix

/-- The tokens of the pieces are read exactly if none is parted from a point. -/
theorem readings_eq_iff (pieces : List Piece) :
    readings pieces = pieces.map Piece.token ↔ Apart pieces := by
  induction pieces with
  | nil => exact iff_of_true rfl apart_nil
  | cons p pieces ih =>
    rw [apart_cons_iff, List.map_cons]
    rcases parted_cases p pieces with ⟨q, r, pieces', rfl, hparted⟩ | hparted
    · -- a point is lost, and no other token takes its place
      refine iff_of_false (fun heq => ?_) fun h => ?_
      · rw [readings, hparted, if_pos rfl, List.cons_inj_right] at heq
        have hlength := length_readings (r :: pieces')
        rw [heq, List.length_map] at hlength
        exact absurd hlength (Nat.not_succ_le_self _)
      · exact Bool.false_ne_true ((h.1 q r pieces' rfl).symm.trans hparted)
    · rw [readings_cons hparted, List.cons_inj_right, ih]
      exact (and_iff_right hparted).symm

end Scan

open Scan

/-- **A space carries nothing but whether a value has ended.** A text with an error has it also
before a space. Behind any other text and a space scanning goes on as the last token says. A text
without an error is cut into the slices of its tokens, and further spaces before these leave its
tokens as they are if and only if they part no slice from a point that stands close behind a number
without one. -/
theorem scan_spaced (afterValue : Bool) (before after : List Char) :
    ((scan afterValue before).error? ≠ none →
      scan afterValue (before ++ ' ' :: after) = scan afterValue before) ∧
    (∀ tokens, scan afterValue before = ⟨tokens, none⟩ →
      let more := scan (endsValueAfter afterValue tokens) after
      scan afterValue (before ++ ' ' :: after) = ⟨tokens ++ more.tokens, more.error?⟩) ∧
    (∀ tokens gaps, scan afterValue before = ⟨tokens, none⟩ → gaps.length = tokens.length →
      ∃ pieces behind, Cut afterValue before pieces behind ∧ pieces.map Piece.gap = gaps) ∧
    ∀ pieces behind, Cut afterValue before pieces behind →
      (scan afterValue (spread behind pieces) = scan afterValue before ↔ Apart pieces) := by
  refine ⟨scan_append_error (ends_space after) afterValue before, ?_, fun _ _ => exists_cut, ?_⟩
  · intro tokens h
    rw [scan_append (ends_space after) h, scan_space]
  · intro pieces behind h
    rw [scan_spread pieces h, h.scan, ← readings_eq_iff]
    exact ⟨fun heq => congrArg Tokens.tokens heq, fun heq => by rw [heq]⟩

/-- The point of the number ends before the space, and the number is the value behind which `-`
subtracts. -/
theorem scan_spaced_sign :
    scan false "1.".toList = ⟨[.number 1], none⟩ ∧
      scan false "1. -2".toList = ⟨[.number 1, .operator .minus, .number 2], none⟩ := by
  have hnumber : next false "1.".toList = .token (.number 1) [] := rfl
  have hminus : next true "-2".toList = .token (.operator .minus) "2".toList := rfl
  have htwo : next false "2".toList = .token (.number 2) [] := rfl
  have hbefore : scan false "1.".toList = ⟨[.number 1], none⟩ := by
    rw [scan_of_token hnumber, scan_nil]
  have hafter : scan true "-2".toList = ⟨[.operator .minus, .number 2], none⟩ := by
    rw [scan_of_token hminus]
    show Tokens.mk (_ :: (scan false "2".toList).tokens) (scan false "2".toList).error? = _
    rw [scan_of_token htwo, scan_nil]
  refine ⟨hbefore, ?_⟩
  have hspaced := (scan_spaced false "1.".toList "-2".toList).2.1 [.number 1] hbefore
  rwa [show endsValueAfter false [.number 1] = true from rfl, hafter] at hspaced

/-- The point of `1.abs()` stands before a call, but in `1. abs()` it ends the number. -/
theorem scan_point_before_space :
    let pieces : List Piece := [⟨0, ['1'], .number 1⟩, ⟨0, ['.'], .dot⟩,
      ⟨1, ['a', 'b', 's'], .name "abs"⟩, ⟨0, ['('], .opening .round⟩, ⟨0, [')'], .closing .round⟩]
    Cut false "1.abs()".toList pieces [] ∧ spread [] pieces = "1. abs()".toList ∧
      scan false "1.abs()".toList =
        ⟨[.number 1, .dot, .name "abs", .opening .round, .closing .round], none⟩ ∧
      scan false "1. abs()".toList =
        ⟨[.number 1, .name "abs", .opening .round, .closing .round], none⟩ ∧
      scan false (spread [] pieces) ≠ scan false "1.abs()".toList := by
  intro pieces
  have hclosing : Cut false ")".toList (pieces.drop 4) [] :=
    @Cut.token false [] [] _ ⟨0, [')'], .closing .round⟩ rfl (.done rfl)
  have hopening : Cut true "()".toList (pieces.drop 3) [] :=
    @Cut.token true ")".toList [] _ ⟨0, ['('], .opening .round⟩ rfl hclosing
  have hname : Cut false "abs()".toList (pieces.drop 2) [] :=
    @Cut.token false "()".toList [] _ ⟨1, ['a', 'b', 's'], .name "abs"⟩ rfl hopening
  have hdot : Cut true ".abs()".toList (pieces.drop 1) [] :=
    @Cut.token true "abs()".toList [] _ ⟨0, ['.'], .dot⟩ rfl hname
  have hcut : Cut false "1.abs()".toList pieces [] :=
    @Cut.token false ".abs()".toList [] _ ⟨0, ['1'], .number 1⟩ rfl hdot
  have hspread := scan_spread pieces hcut
  refine ⟨hcut, rfl, hcut.scan, hspread, fun heq => ?_⟩
  rw [hspread, hcut.scan] at heq
  exact absurd (congrArg (fun scanned => scanned.tokens.length) heq) (by decide)

end PixelCalc
