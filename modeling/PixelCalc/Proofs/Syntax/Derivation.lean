import PixelCalc.Syntax.Nesting

/-!
# How tokens are nested

Nesting reads from left to right and keeps the brackets that are open. What it comes to is told here
without the stack, by the tokens and segments that remain: a token adds to the segment in front, a
comma begins one, and a pair of brackets adds the group that its own tokens are nested to.

- `Nests first more tokens`: the tokens between two brackets hold the segments `first` and `more`.
- `Resumes`: nesting goes on behind the bracket that closes a level.
- `nestFrom_nests`: nesting completes the level in front and resumes behind it.
- `nest_nests`: the group of tokens is nested from them.
-/

namespace PixelCalc
namespace Nesting

/-- The tokens hold the segments `first` and, behind commas, `more`. -/
inductive Nests : List Item → List (List Item) → List Token → Prop
  | nil : Nests [] [] []
  | comma {segment : List Item} {more : List (List Item)} {tokens : List Token}
      (h : Nests segment more tokens) : Nests [] (segment :: more) (.comma :: tokens)
  | dot {first : List Item} {more : List (List Item)} {tokens : List Token}
      (h : Nests first more tokens) : Nests (.dot :: first) more (.dot :: tokens)
  | operator {first : List Item} {more : List (List Item)} {tokens : List Token} (op : Operator)
      (h : Nests first more tokens) : Nests (.operator op :: first) more (.operator op :: tokens)
  | number {first : List Item} {more : List (List Item)} {tokens : List Token} (x : Float)
      (h : Nests first more tokens) :
      Nests (.expr (.number x) :: first) more (.number x :: tokens)
  | name {first : List Item} {more : List (List Item)} {tokens : List Token} (n : String)
      (h : Nests first more tokens) : Nests (.expr (.name n) :: first) more (.name n :: tokens)
  | brackets {inner first : List Item} {innerMore more : List (List Item)}
      {contents tokens : List Token} (b : Bracket) (hinner : Nests inner innerMore contents)
      (h : Nests first more tokens) :
      Nests (bracketItems b ⟨inner, innerMore⟩ ++ first) more
        (.opening b :: (contents ++ .closing b :: tokens))

/-- Behind the tokens `inner`, which complete a level to `contents`, the tokens end if no bracket is
open; or else the innermost one closes, and nesting goes on in the level around it. -/
inductive Resumes (contents : Group) (inner : List Token) :
    List (Bracket × Level) → List Token → Group → Prop
  | done : Resumes contents inner [] inner contents
  | closed {b : Bracket} {around : Level} {outer : List (Bracket × Level)} {g : Group}
      (rest : List Token) (h : nestFrom (around.push (bracketItems b contents)) outer rest = .ok g) :
      Resumes contents inner ((b, around) :: outer) (inner ++ .closing b :: rest) g

variable {level : Level} {outer : List (Bracket × Level)} {tokens inner : List Token}
  {contents g : Group}

theorem Resumes.after (h : Resumes contents inner outer tokens g) (before : List Token) :
    Resumes contents (before ++ inner) outer (before ++ tokens) g := by
  cases h with
  | done => exact .done
  | closed rest h =>
    rw [← List.append_assoc]
    exact .closed rest h

theorem Resumes.of_cons {b : Bracket} {around : Level}
    (h : Resumes contents inner ((b, around) :: outer) tokens g) :
    ∃ rest, tokens = inner ++ .closing b :: rest ∧
      nestFrom (around.push (bracketItems b contents)) outer rest = .ok g := by
  cases h with
  | closed rest h => exact ⟨rest, rfl, h⟩

/-- A level completed by tokens that hold the segments `first` and `more`. -/
def Level.Completes (level : Level) (first : List Item) (more : List (List Item))
    (contents : Group) : Prop :=
  contents.segments = level.ended ++ (level.current ++ first) :: more

theorem Level.completes_push {first items : List Item} {more : List (List Item)}
    (h : (level.push items).Completes first more contents) :
    level.Completes (items ++ first) more contents := by
  rw [Level.Completes, ← List.append_assoc]
  exact h

theorem Level.completes_comma {first : List Item} {more : List (List Item)}
    (h : level.comma.Completes first more contents) :
    level.Completes [] (first :: more) contents := by
  rw [Level.Completes, List.append_nil, List.append_cons]
  exact h

/-- A level that has just been opened is completed by the whole contents. -/
theorem Level.completes_start {first : List Item} {more : List (List Item)}
    (h : Level.start.Completes first more contents) : contents = ⟨first, more⟩ := by
  obtain ⟨first', more'⟩ := contents
  cases h
  rfl

/-- Nesting completes the level in front by tokens of its own, and resumes behind them. -/
theorem nestFrom_nests (level : Level) (outer : List (Bracket × Level)) (tokens : List Token)
    {g : Group} (h : nestFrom level outer tokens = .ok g) :
    ∃ first more inner contents, Nests first more inner ∧ level.Completes first more contents ∧
      Resumes contents inner outer tokens g := by
  -- a token that is neither bracket nor comma is the first of those that complete the level
  have hpush {t : Token} {item : Item} {rest : List Token}
      (hnests : ∀ {first more inner}, Nests first more inner →
        Nests (item :: first) more (t :: inner))
      (hrest : ∃ first more inner contents, Nests first more inner ∧
        (level.push [item]).Completes first more contents ∧ Resumes contents inner outer rest g) :
      ∃ first more inner contents, Nests first more inner ∧ level.Completes first more contents ∧
        Resumes contents inner outer (t :: rest) g := by
    obtain ⟨first, more, inner, contents, hinner, hcontents, hresumes⟩ := hrest
    exact ⟨_, more, _, contents, hnests hinner, Level.completes_push hcontents, hresumes.after [t]⟩
  match tokens, h with
  | [], h =>
    cases outer with
    | nil =>
      cases h
      refine ⟨[], [], [], _, .nil, ?_, .done⟩
      rw [Level.Completes, List.append_nil]
      exact level.segments_close
    | cons around outer => cases h
  | .closing b :: rest, h =>
    cases outer with
    | nil => cases h
    | cons around outer =>
      obtain ⟨opened, around⟩ := around
      rw [nestFrom] at h
      split at h
      · rename_i hopened
        subst hopened
        refine ⟨[], [], [], level.close, .nil, ?_, .closed rest h⟩
        rw [Level.Completes, List.append_nil]
        exact level.segments_close
      · cases h
  | .opening b :: rest, h =>
    -- the brackets are nested first, and then what follows them in the level that they interrupt
    obtain ⟨inner, innerMore, contents, g', hinner, hg', hresumes⟩ := nestFrom_nests _ _ rest h
    cases Level.completes_start hg'
    obtain ⟨behind, hrest, h⟩ := hresumes.of_cons
    have hlength : behind.length < rest.length := by
      rw [hrest, List.length_append, List.length_cons]
      omega
    obtain ⟨first, more, following, g', hfollowing, hg', hresumes⟩ := nestFrom_nests _ _ behind h
    refine ⟨_, more, _, g', .brackets b hinner hfollowing, Level.completes_push hg', ?_⟩
    rw [hrest]
    exact ((hresumes.after [.closing b]).after contents).after [.opening b]
  | .comma :: rest, h =>
    obtain ⟨first, more, inner, contents, hinner, hcontents, hresumes⟩ := nestFrom_nests _ _ rest h
    exact ⟨_, _, _, contents, .comma hinner, Level.completes_comma hcontents,
      hresumes.after [.comma]⟩
  | .dot :: rest, h => exact hpush .dot (nestFrom_nests _ _ rest h)
  | .operator op :: rest, h => exact hpush (.operator op) (nestFrom_nests _ _ rest h)
  | .number x :: rest, h => exact hpush (.number x) (nestFrom_nests _ _ rest h)
  | .name n :: rest, h => exact hpush (.name n) (nestFrom_nests _ _ rest h)
termination_by tokens.length
decreasing_by all_goals (simp only [List.length_cons]; omega)

/-- The group of tokens is nested from them. -/
theorem nest_nests (h : nest tokens = .ok g) : Nests g.first g.more tokens := by
  obtain ⟨first, more, inner, contents, hinner, hcontents, hresumes⟩ := nestFrom_nests _ _ _ h
  cases Level.completes_start hcontents
  cases hresumes
  exact hinner

end Nesting
end PixelCalc
