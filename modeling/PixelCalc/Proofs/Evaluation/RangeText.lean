import PixelCalc.Proofs.Binary64.Integral
import PixelCalc.Proofs.Evaluation.FromEnd

/-!
# The text of a range is its source

A bound is shown by its digits, with the mark `^` where it counts from the end, and these are read as
the number that the bound stands for. A bound that comes from a number is the integer nearest to it, or
the largest index; both are literals that give the same bound again.

- `RangeBound.expr`, `RangeBound.operand`: the expression that the text of a bound is, and its value.
- `parse_text`: the tree of the text of a range.
- `RangeBound.Legible`: the value of the text of a bound is the bound again; `legible_of_ofNumber?` says
  that bounds that numbers stand for are such.
- `evaluate_text`: the ranges that operands give, and the value of their texts.
-/

namespace PixelCalc

open Binary64 (digitsValue ofNatural)

/-! ### Digits -/

theorem isDigits_toDigits (n : Nat) : IsDigits (Nat.toDigits 10 n) :=
  ⟨Nat.toDigits_ne_nil, fun _ => Nat.isDigit_of_mem_toDigits (by decide) (by decide)⟩

theorem digitsValue_toDigits (n : Nat) : digitsValue (Nat.toDigits 10 n) = n :=
  Nat.ofDigitChars_eq_foldl.symm.trans Nat.ofDigitChars_ten_toDigits

namespace RangeBound

/-- The expression that the text of a bound is. An open bound has no text. -/
def expr : RangeBound → Expr
  | unbounded => .nothing
  | fromStart n => .number (ofNatural n)
  | fromEnd n => backExpr n

/-- The tokens of the text of a bound. -/
def tokens : RangeBound → List Token
  | unbounded => []
  | fromStart n => [.number (ofNatural n)]
  | fromEnd n => [.operator .power, .number (ofNatural n)]

/-- The items of the text of a bound. -/
def items : RangeBound → List Item
  | unbounded => []
  | fromStart n => [.expr (.number (ofNatural n))]
  | fromEnd n => [.operator .power, .expr (.number (ofNatural n))]

/-- The value of the expression of a bound. -/
def operand : RangeBound → Value
  | unbounded => .nothing
  | fromStart n => .number (ofNatural n)
  | fromEnd n => .number (-ofNatural n)

end RangeBound

/-! ### Reading a range -/

variable {b : RangeBound} {r : IndexRange} {rest : List Char} {x : Float} {v left right : Value}
  {side : Side} {n : Nat}

namespace Scan

/-- The text of a bound is scanned whole where neither a digit nor a fraction follows it. -/
theorem scan_bound (b : RangeBound) (hrest : ∀ c ∈ rest.head?, c.isDigit = false)
    (hfraction : fraction rest = ([], rest)) :
    ∃ afterValue, scan false (b.text.toList ++ rest) =
      ⟨b.tokens ++ (scan afterValue rest).tokens, (scan afterValue rest).error?⟩ := by
  have hdigits (n : Nat) : scan false ((toString n).toList ++ rest) =
      ⟨.number (ofNatural n) :: (scan true rest).tokens, (scan true rest).error?⟩ := by
    rw [Nat.toString_eq_ofList_toDigits, String.toList_ofList,
      scan_digits (isDigits_toDigits n) false hrest hfraction, digitsValue_toDigits]
  cases b with
  | unbounded => exact ⟨false, rfl⟩
  | fromStart n => exact ⟨true, hdigits n⟩
  | fromEnd n =>
    refine ⟨true, ?_⟩
    have htext : (RangeBound.fromEnd n).text.toList = '^' :: (toString n).toList :=
      String.toList_append ..
    rw [htext, List.cons_append, scan_power, hdigits]
    rfl

/-- The text of a range scans to the tokens of its two bounds with the operator between them. -/
theorem scan_text (r : IndexRange) :
    scan false r.text.toList = ⟨r.start.tokens ++ .operator .range :: r.stop.tokens, none⟩ := by
  have htext : r.text.toList = r.start.text.toList ++ '.' :: '.' :: (r.stop.text.toList ++ []) := by
    simp [IndexRange.text, String.toList_append]
  have hpoint : ∀ c ∈ ('.' :: '.' :: (r.stop.text.toList ++ [])).head?, c.isDigit = false := by
    rintro c ⟨⟩
    rfl
  obtain ⟨_, hstart⟩ := scan_bound r.start hpoint rfl
  have hend : ∀ c ∈ ([] : List Char).head?, c.isDigit = false := nofun
  obtain ⟨_, hstop⟩ := scan_bound r.stop hend rfl
  rw [htext, hstart, scan_range, hstop, scan_nil, List.append_nil]

end Scan

/-- The tree of the text of a range. A bound is at most two items, so all items are known. -/
theorem parse_text (r : IndexRange) :
    parse r.text = .ok (.operation .range r.start.expr r.stop.expr) := by
  obtain ⟨start, stop⟩ := r
  -- each of the three shapes of a bound is one or two items, so the nine cases compute
  have hnest : nest (start.tokens ++ .operator .range :: stop.tokens) =
      .ok ⟨start.items ++ .operator .range :: stop.items, []⟩ := by
    cases start <;> cases stop <;> rfl
  have hflat (first : List Item) (more : List (List Item)) :
      .expr (.group first more) ∉ start.items ++ .operator .range :: stop.items := by
    cases start <;> cases stop <;> simp [RangeBound.items]
  have hfold : Folding.foldSegment (start.items ++ .operator .range :: stop.items) =
      .ok [.expr (.operation .range start.expr stop.expr)] := by
    cases start <;> cases stop <;> rfl
  exact parse_of_scan (Scan.scan_text ⟨start, stop⟩) hnest hflat hfold

/-! ### The value of a bound -/

/-- The text of the bound is the source of a value that stands for the bound. -/
structure RangeBound.Legible (b : RangeBound) : Prop where
  eval : ∀ env, b.expr.eval env = (b.operand, env)
  bound : ∀ side, Operation.rangeBound side b.operand = .ok b

theorem legible_unbounded : RangeBound.Legible .unbounded :=
  ⟨fun _ => rfl, fun _ => rfl⟩

/-- The literal of an index that a number was rounded to gives the index again. The literal of the
largest index is read as the next power of two, which is too large for an index. -/
theorem exists_readAs {i : Int} (h : Binary64.nearestInt? x = some i) :
    ∃ k, Binary64.ReadAs (min i.natAbs maxIndex) k ∧ min k maxIndex = min i.natAbs maxIndex := by
  obtain hlt | hle := Nat.lt_or_ge maxIndex i.natAbs
  · -- the number is cut to the largest index, which has more bits than a significand
    rw [Nat.min_eq_right (Nat.le_of_lt hlt)]
    exact ⟨2 ^ 64, ⟨by decide, by decide, by decide⟩, by decide⟩
  · have hi : i.natAbs < 2 ^ 64 := Nat.lt_succ_of_le hle
    rw [Nat.min_eq_left hle]
    exact ⟨i.natAbs, (Binary64.exact_of_nearestInt? h hi).readAs, Nat.min_eq_left hle⟩

theorem rangeBound_number (h : RangeBound.ofNumber? x = some b) (side : Side) :
    Operation.rangeBound side (.number x) = .ok b := by
  rw [Operation.rangeBound, h]

theorem rangeBound_of_nearestInt? {i : Int} (h : Binary64.nearestInt? x = some i) (side : Side) :
    Operation.rangeBound side (.number x) =
      .ok (if i < 0 then .fromEnd (min i.natAbs maxIndex) else .fromStart (min i.natAbs maxIndex)) :=
  rangeBound_number (Option.map_eq_some_iff.mpr ⟨i, h, rfl⟩) side

/-- A bound that a number stands for is legible. -/
theorem legible_of_ofNumber? (h : RangeBound.ofNumber? x = some b) : b.Legible := by
  obtain ⟨i, hi, rfl⟩ := Option.map_eq_some_iff.mp h
  -- the text shows the saturated index, so it is read as `k` and saturates to the same bound
  obtain ⟨k, hread, hk⟩ := exists_readAs hi
  by_cases hneg : i < 0
  · rw [if_pos hneg]
    have hpos : -(k : Int) < 0 := by
      have hmax : 0 < maxIndex := by decide
      omega
    refine ⟨eval_back hread, fun side => ?_⟩
    refine (rangeBound_of_nearestInt? hread.nearestInt?_neg side).trans ?_
    rw [if_pos hpos, Int.natAbs_neg, Int.natAbs_natCast, hk]
  · rw [if_neg hneg]
    refine ⟨fun env => rfl, fun side => ?_⟩
    refine (rangeBound_of_nearestInt? hread.nearestInt?_pos side).trans ?_
    rw [if_neg (by omega), Int.natAbs_natCast, hk]

/-! ### Ranges -/

/-- The operands of a range: numbers that are finite, and none at all. -/
inductive Value.IsEnd : Value → Prop
  | nothing : IsEnd .nothing
  | number {x : Float} (h : x.isFinite = true) : IsEnd (.number x)

/-- A bound is made of exactly the values that can end a range. -/
theorem rangeBound_eq_ok_iff (side : Side) :
    (∃ b, Operation.rangeBound side v = .ok b) ↔ v.IsEnd := by
  constructor
  · rintro ⟨b, h⟩
    cases v with
    | nothing => exact .nothing
    | number x =>
      refine .number (Bool.of_not_eq_false fun hx => ?_)
      have hnone : RangeBound.ofNumber? x = none := by
        rw [RangeBound.ofNumber?, Binary64.nearestInt?, if_neg (Bool.eq_false_iff.mp hx)]
        rfl
      rw [Operation.rangeBound, hnone] at h
      cases h
    | _ => cases h
  · rintro (_ | @⟨x, hx⟩)
    · exact ⟨_, rfl⟩
    · exact ⟨_, rangeBound_of_nearestInt? (if_pos hx) side⟩

/-- Every bound that the operator can make is read back from its text. -/
theorem legible_of_rangeBound (h : Operation.rangeBound side v = .ok b) : b.Legible := by
  cases v with
  | nothing =>
    cases h
    exact legible_unbounded
  | number x =>
    unfold Operation.rangeBound at h
    dsimp only at h
    split at h
    · rename_i bound hbound
      cases h
      exact legible_of_ofNumber? hbound
    · cases h
  | _ => cases h

theorem compute_range_eq (h : Operation.rangeBound .left left = .ok r.start)
    (h' : Operation.rangeBound .right right = .ok r.stop) :
    Operator.range.compute left right = .range r := by
  have hvalue : Operation.range left right = .range r := by
    rw [Operation.range, h]
    dsimp only
    rw [h']
  unfold Operator.compute
  split
  · cases h
  · cases h'
  · exact hvalue

theorem rangeBound_of_compute (h : Operator.range.compute left right = .range r) :
    Operation.rangeBound .left left = .ok r.start ∧
      Operation.rangeBound .right right = .ok r.stop := by
  have hvalue : Operation.range left right = .range r := by
    unfold Operator.compute at h
    split at h
    · cases h
    · cases h
    · exact h
  unfold Operation.range at hvalue
  split at hvalue
  · cases hvalue
  · rename_i start hstart
    split at hvalue
    · cases hvalue
    · rename_i stop hstop
      cases hvalue
      exact ⟨hstart, hstop⟩

/-- **The text of a range is its source.** Two operands give a range if each is missing or a finite
number, and the text of that range, read in any environment, evaluates to the range and changes
nothing. -/
theorem evaluate_text :
    (∀ left right : Value,
      (∃ r, Operator.range.compute left right = .range r) ↔ left.IsEnd ∧ right.IsEnd) ∧
    ∀ (left right : Value) (r : IndexRange), Operator.range.compute left right = .range r →
      ∀ env : Environment, evaluate env r.text = (.range r, env) := by
  refine ⟨fun left right => ⟨?_, ?_⟩, ?_⟩
  · rintro ⟨r, h⟩
    obtain ⟨hstart, hstop⟩ := rangeBound_of_compute h
    exact ⟨(rangeBound_eq_ok_iff .left).mp ⟨_, hstart⟩, (rangeBound_eq_ok_iff .right).mp ⟨_, hstop⟩⟩
  · rintro ⟨hleft, hright⟩
    obtain ⟨start, hstart⟩ := (rangeBound_eq_ok_iff .left).mpr hleft
    obtain ⟨stop, hstop⟩ := (rangeBound_eq_ok_iff .right).mpr hright
    exact ⟨⟨start, stop⟩, compute_range_eq hstart hstop⟩
  · intro left right r h env
    obtain ⟨hstart, hstop⟩ := rangeBound_of_compute h
    have hleft := legible_of_rangeBound hstart
    have hright := legible_of_rangeBound hstop
    have hvalue : Operator.range.compute r.start.operand r.stop.operand = .range r :=
      compute_range_eq (hleft.bound .left) (hright.bound .right)
    rw [evaluate, parse_text]
    simp only [Expr.eval, hleft.eval, hright.eval, Environment.operate, hvalue]
    rfl

/-- A range from the last index but one, rounded, up to an index that is too large. -/
theorem evaluate_text_saturated :
    Operator.range.compute (.number (-1.5)) (.number 1e30) = .range ⟨.fromEnd 2, .fromStart maxIndex⟩ ∧
      evaluate .empty "^2..18446744073709551615" =
        (.range ⟨.fromEnd 2, .fromStart maxIndex⟩, .empty) := by
  have hrange : Operator.range.compute (.number (-1.5)) (.number 1e30) =
      .range ⟨.fromEnd 2, .fromStart maxIndex⟩ :=
    compute_range_eq (rangeBound_number (by decide +kernel) .left)
      (rangeBound_number (by decide +kernel) .right)
  have htext :
      (IndexRange.mk (.fromEnd 2) (.fromStart maxIndex)).text = "^2..18446744073709551615" := by
    decide
  have hvalue := evaluate_text.2 _ _ _ hrange .empty
  rw [htext] at hvalue
  exact ⟨hrange, hvalue⟩

end PixelCalc
