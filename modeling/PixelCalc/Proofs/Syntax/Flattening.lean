import PixelCalc.Proofs.Syntax.Derivation
import PixelCalc.Proofs.Syntax.IndexNotation

/-!
# Groups written out

Nesting puts no token aside: written out again, with brackets around every group and commas between
segments, a group is the list of its tokens. All that is lost is which brackets were those of an
index, for an index is nested as a call.

- `Group.tokens`: a group written out.
- `Nests.flatten`: tokens written out from the segments that they hold.
- `nest_flatten`: the group of tokens is written out to them, with indices written as calls; so
  these are all that two lists with one group can differ in.
-/

namespace PixelCalc

mutual

/-- An item of nested tokens, written out. What only folding makes stands in no such item. -/
def Item.tokens : Item → List Token
  | .expr (.number x) => [.number x]
  | .expr (.name n) => [.name n]
  | .expr (.group first more) =>
    .opening .round :: (itemTokens first ++ (segmentTokens more ++ [.closing .round]))
  | .expr _ => []
  | .operator op => [.operator op]
  | .dot => [.dot]

/-- The items of a segment, written out. -/
def itemTokens : List Item → List Token
  | [] => []
  | item :: rest => item.tokens ++ itemTokens rest

/-- The segments behind the first one, each with the comma before it. -/
def segmentTokens : List (List Item) → List Token
  | [] => []
  | segment :: rest => .comma :: (itemTokens segment ++ segmentTokens rest)

end

/-- The contents of a group, written out. -/
def Group.tokens (g : Group) : List Token :=
  itemTokens g.first ++ segmentTokens g.more

namespace Nesting

variable {first : List Item} {more : List (List Item)} {tokens : List Token} {g : Group}

/-- The segments that tokens hold are written out to these tokens. -/
theorem Nests.flatten (h : Nests first more tokens) :
    itemTokens first ++ segmentTokens more = tokens.flatMap spellToken := by
  induction h with
  | nil => rfl
  | comma _ ih => exact congrArg (Token.comma :: ·) ih
  | dot _ ih => exact congrArg (Token.dot :: ·) ih
  | operator op _ ih => exact congrArg (Token.operator op :: ·) ih
  | number x _ ih => exact congrArg (Token.number x :: ·) ih
  | name n _ ih => exact congrArg (Token.name n :: ·) ih
  | @brackets inner first innerMore more contents tokens b _ _ ihinner ih =>
    have hgroup : (Item.expr (.group inner innerMore)).tokens ++ itemTokens first ++
        segmentTokens more =
        .opening .round :: (contents.flatMap spellToken ++
          .closing .round :: tokens.flatMap spellToken) := by
      rw [← ih, ← ihinner, Item.tokens]
      simp only [List.append_assoc, List.cons_append, List.nil_append]
    rw [List.flatMap_cons, List.flatMap_append, List.flatMap_cons]
    cases b with
    | round => exact hgroup
    | square => exact congrArg (fun rest => Token.dot :: .name indexFunction :: rest) hgroup

/-- Where nesting succeeds, all brackets are closed. -/
theorem scanBrackets_of_nest (h : nest tokens = .ok g) : scanBrackets [] tokens = some [] := by
  cases hscan : scanBrackets [] tokens with
  | none =>
    obtain ⟨before, found, after, stack, rfl, hbefore, hfound⟩ := exists_offence hscan
    cases (nest_eq_offence hbefore hfound).symm.trans h
  | some stack =>
    cases stack with
    | nil => rfl
    | cons opened stack => cases (nest_eq_unclosed hscan).symm.trans h

/-- **Nesting loses nothing.** The group of tokens, written out again, is the list of the tokens
with indices written as calls. Two lists that can be nested have one group if and only if this is
the same list for both. -/
theorem nest_flatten (h : nest tokens = .ok g) :
    g.tokens = tokens.flatMap spellToken ∧
      ∀ tokens' g', nest tokens' = .ok g' →
        (g' = g ↔ tokens'.flatMap spellToken = tokens.flatMap spellToken) := by
  have hwritten {tokens : List Token} {g : Group} (h : nest tokens = .ok g) :
      g.tokens = tokens.flatMap spellToken :=
    (nest_nests h).flatten
  refine ⟨hwritten h, fun tokens' g' h' => ⟨?_, fun heq => ?_⟩⟩
  · rintro rfl
    rw [← hwritten h, ← hwritten h']
  · -- tokens have the group that they have with indices written as calls
    have hspelled := nest_spelled (scanBrackets_of_nest h)
    have hspelled' := nest_spelled (scanBrackets_of_nest h')
    rw [heq, hspelled, h, h'] at hspelled'
    exact (Except.ok.inj hspelled').symm

/-- `x[y,][]` has empty segments and empty brackets, and loses none of them. -/
theorem nest_flatten_index :
    let x := Item.expr (.name "x")
    let g : Group := ⟨[x, .dot, .expr (.name indexFunction),
      .expr (.group [.expr (.name "y")] [[]]), .dot, .expr (.name indexFunction),
      .expr (.group [] [])], []⟩
    let tokens := [Token.name "x", .opening .square, .name "y", .comma, .closing .square,
      .opening .square, .closing .square]
    nest tokens = .ok g ∧ g.tokens = [.name "x", .dot, .name indexFunction, .opening .round,
      .name "y", .comma, .closing .round, .dot, .name indexFunction, .opening .round,
      .closing .round] := by
  intro x g tokens
  have hnest : nest tokens = .ok g := rfl
  exact ⟨hnest, (nest_flatten hnest).1⟩

end Nesting
end PixelCalc
