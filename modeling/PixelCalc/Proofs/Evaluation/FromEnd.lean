import PixelCalc.Evaluation
import PixelCalc.Proofs.Binary64.Whole
import PixelCalc.Proofs.Builtin.Selection
import PixelCalc.Proofs.Syntax.Assembly

/-!
# Rows counted from the end

`^n` is the number `-n`, and an index that is negative counts from the end. So the mark that an index
counts from the end is the sign of a number, and the integer nearest to the negative zero has none:
`^0` counts from the front.

- `parse_back`, `parse_before_back`, `parse_behind_back`: the trees of `^n`, `..^n` and `^n..`.
- `evaluate_index`: an index of a variable is a call of the function that selects.
- `eval_back`, `eval_before_back`, `eval_behind_back`: the selectors that these are, `backBound` being
  the bound that `^n` is in a range.
- `rows_from_end`: the rows selected, and when none are.
-/

namespace PixelCalc

open Binary64 (digitsValue ofNatural readAs_small)

/-! ### Reading a number -/

/-- The digits of a whole number. -/
structure IsDigits (ds : List Char) : Prop where
  nonempty : ds ≠ []
  digits : ∀ c ∈ ds, c.isDigit = true

variable {ds cs rest : List Char} {x source : String} {e : Expr}

namespace Scan

/-- Digits are scanned whole where neither a digit nor a fraction follows them. -/
theorem scan_digits (h : IsDigits ds) (afterValue : Bool) (hrest : ∀ c ∈ rest.head?, c.isDigit = false)
    (hfraction : fraction rest = ([], rest)) :
    scan afterValue (ds ++ rest) =
      ⟨.number (ofNatural (digitsValue ds)) :: (scan true rest).tokens, (scan true rest).error?⟩ := by
  have htake : rest.takeWhile Char.isDigit = [] := by
    cases rest with
    | nil => rfl
    | cons c rest => exact List.takeWhile_cons_of_neg (by simp [hrest c rfl])
  have hdrop : rest.dropWhile Char.isDigit = rest := by
    cases rest with
    | nil => rfl
    | cons c rest => exact List.dropWhile_cons_of_neg (by simp [hrest c rfl])
  have hnumber : scanNumber (ds ++ rest) = (ofNatural (digitsValue ds), rest) := by
    unfold scanNumber
    rw [List.takeWhile_append_of_pos h.digits, List.dropWhile_append_of_pos h.digits, htake, hdrop,
      hfraction]
    simp only [List.append_nil]
    rfl
  obtain ⟨c, cs, rfl⟩ := List.exists_cons_of_ne_nil h.nonempty
  have hc : c.isDigit = true := h.digits c List.mem_cons_self
  have hnext : next afterValue (c :: cs ++ rest) =
      .token (.number (ofNatural (digitsValue (c :: cs)))) rest := by
    rw [List.cons_append, next_of_ne_space (begins_no_sign (.inr hc)).1, tokenAt_of_isDigit hc,
      ← List.cons_append, Step.number, hnumber]
    rfl
  exact scan_of_token hnext

theorem scan_power (cs : List Char) :
    scan false ('^' :: cs) =
      ⟨.operator .power :: (scan false cs).tokens, (scan false cs).error?⟩ :=
  scan_of_token rfl

/-- Two points are a range, behind which a value may begin. -/
theorem scan_range (afterValue : Bool) (cs : List Char) :
    scan afterValue ('.' :: '.' :: cs) =
      ⟨.operator .range :: (scan false cs).tokens, (scan false cs).error?⟩ :=
  scan_of_token rfl

end Scan

open Folding in
/-- The tree of a source that has no brackets. -/
theorem parse_of_scan {tokens : List Token} {items : List Item}
    (hscan : Scan.scan false source.toList = ⟨tokens, none⟩) (hnest : nest tokens = .ok ⟨items, []⟩)
    (hflat : ∀ first more, .expr (.group first more) ∉ items)
    (hfold : foldSegment items = .ok [.expr e]) : parse source = .ok e := by
  refine parse_iff.mpr ⟨items, ⟨tokens, hscan, hnest⟩, ?_⟩
  unfold Folds
  rw [resolveItems_of_no_group hflat]
  exact hfold

/-- The expression `^n`. -/
def backExpr (n : Nat) : Expr :=
  .operation .power .nothing (.number (ofNatural n))

/-- `^n` is a power without a left operand. -/
theorem parse_back (h : IsDigits ds) :
    parse ("^" ++ String.ofList ds) = .ok (backExpr (digitsValue ds)) := by
  have htext : ("^" ++ String.ofList ds).toList = '^' :: (ds ++ []) := by
    simp
  have hscan : Scan.scan false ("^" ++ String.ofList ds).toList =
      ⟨[.operator .power, .number (ofNatural (digitsValue ds))], none⟩ := by
    rw [htext, Scan.scan_power, Scan.scan_digits h _ (by simp) rfl, Scan.scan_nil]
  have hnest : nest [.operator .power, .number (ofNatural (digitsValue ds))] =
      .ok ⟨[.operator .power, .expr (.number (ofNatural (digitsValue ds)))], []⟩ := rfl
  exact parse_of_scan hscan hnest (by simp) rfl

/-- `..^n` is a range to such a power. -/
theorem parse_before_back (h : IsDigits ds) :
    parse ("..^" ++ String.ofList ds) =
      .ok (.operation .range .nothing (backExpr (digitsValue ds))) := by
  have htext : ("..^" ++ String.ofList ds).toList = '.' :: '.' :: '^' :: (ds ++ []) := by
    simp
  have hscan : Scan.scan false ("..^" ++ String.ofList ds).toList =
      ⟨[.operator .range, .operator .power, .number (ofNatural (digitsValue ds))], none⟩ := by
    rw [htext, Scan.scan_range, Scan.scan_power, Scan.scan_digits h _ (by simp) rfl, Scan.scan_nil]
  have hnest : nest [.operator .range, .operator .power, .number (ofNatural (digitsValue ds))] =
      .ok ⟨[.operator .range, .operator .power, .expr (.number (ofNatural (digitsValue ds)))], []⟩ :=
    rfl
  exact parse_of_scan hscan hnest (by simp) rfl

/-- `^n..` is a range from such a power. -/
theorem parse_behind_back (h : IsDigits ds) :
    parse ("^" ++ String.ofList ds ++ "..") =
      .ok (.operation .range (backExpr (digitsValue ds)) .nothing) := by
  have htext : ("^" ++ String.ofList ds ++ "..").toList = '^' :: (ds ++ ['.', '.']) := by
    simp
  have hscan : Scan.scan false ("^" ++ String.ofList ds ++ "..").toList =
      ⟨[.operator .power, .number (ofNatural (digitsValue ds)), .operator .range], none⟩ := by
    -- the points of the range are not read as the point of the number
    have hpoint : ∀ c ∈ ['.', '.'].head?, c.isDigit = false := by
      rintro c ⟨⟩
      rfl
    rw [htext, Scan.scan_power, Scan.scan_digits h _ hpoint (by decide), Scan.scan_range,
      Scan.scan_nil]
  have hnest : nest [.operator .power, .number (ofNatural (digitsValue ds)), .operator .range] =
      .ok ⟨[.operator .power, .expr (.number (ofNatural (digitsValue ds))), .operator .range], []⟩ :=
    rfl
  exact parse_of_scan hscan hnest (by simp) rfl

/-! ### Evaluating an index -/

variable {env : Environment} {m : Matrix} {v : Value} {n k : Nat}

/-- An index of a variable is a call of the built-in function. -/
theorem evaluate_index (hx : isName x = true) (hm : env.find? x = some (.matrix m))
    (hparse : parse source = .ok e) (heval : e.eval env = (v, env)) :
    evaluate env (x ++ "[" ++ source ++ "]") = (Builtin.subMat.invoke [.matrix m, v], env) := by
  have hvalue : env.value x = .matrix m := by
    rw [Environment.value, hm]
    rfl
  have hcall (args : List Value) : env.call indexFunction args = Builtin.subMat.invoke args := by
    rw [Environment.call, Environment.function?,
      show Builtin.ofName? indexFunction = some .subMat from Builtin.ofName?_name .subMat]
  unfold evaluate
  rw [parse_index hx hparse]
  simp only [Expr.eval, evalAll, Item.eval, heval, hvalue, hcall]

/-- A power without a base is a negation, if the number is not negative. -/
theorem eval_back (h : Binary64.ReadAs n k) (env : Environment) :
    (backExpr n).eval env = (.number (-ofNatural n), env) := by
  have hvalue : Operator.power.compute .nothing (.number (ofNatural n)) =
      .number (-ofNatural n) := if_pos h.nonneg
  simp only [backExpr, Expr.eval, Environment.operate, hvalue]
  rfl

/-- The bound that `^n` is in a range. The mark that it counts from the end is the sign of a number,
which the integer zero does not have. -/
def backBound (n : Nat) : RangeBound :=
  if n = 0 then .fromStart 0 else .fromEnd n

/-- The negative of a small natural number is a bound counted from the end, unless it is zero. -/
theorem ofNumber?_back (h : n < 2 ^ 53) :
    RangeBound.ofNumber? (-ofNatural n) = some (backBound n) := by
  have hmax : min n maxIndex = n := Nat.min_eq_left (Nat.le_trans (Nat.le_of_lt h) (by decide))
  rw [RangeBound.ofNumber?, (readAs_small h).nearestInt?_neg, Option.map_some, Int.natAbs_neg,
    Int.natAbs_natCast, hmax, backBound]
  by_cases hzero : n = 0
  · subst hzero
    rfl
  · rw [if_neg hzero, if_pos (by omega)]

theorem rangeBound_back (h : n < 2 ^ 53) (side : Side) :
    Operation.rangeBound side (.number (-ofNatural n)) = .ok (backBound n) := by
  rw [Operation.rangeBound, ofNumber?_back h]

/-- The range from the start to the bound. -/
theorem eval_before_back (h : n < 2 ^ 53) (env : Environment) :
    (Expr.operation .range .nothing (backExpr n)).eval env =
      (.range ⟨.unbounded, backBound n⟩, env) := by
  have hvalue : Operator.range.compute .nothing (.number (-ofNatural n)) =
      .range ⟨.unbounded, backBound n⟩ := by
    show Operation.range .nothing (.number (-ofNatural n)) = _
    rw [Operation.range, rangeBound_back h]
    rfl
  simp only [Expr.eval, eval_back (readAs_small h), Environment.operate, hvalue]
  rfl

/-- The range from the bound to the end. -/
theorem eval_behind_back (h : n < 2 ^ 53) (env : Environment) :
    (Expr.operation .range (backExpr n) .nothing).eval env =
      (.range ⟨backBound n, .unbounded⟩, env) := by
  have hvalue : Operator.range.compute (.number (-ofNatural n)) .nothing =
      .range ⟨backBound n, .unbounded⟩ := by
    show Operation.range (.number (-ofNatural n)) .nothing = _
    rw [Operation.range, rangeBound_back h]
    rfl
  simp only [Expr.eval, eval_back (readAs_small h), Environment.operate, hvalue]
  rfl

/-! ### What the selectors stand for -/

namespace Value

variable {len : Nat}

/-- A bound before the end that leaves something selects what comes before it. -/
theorem before_back_selects (hpos : 0 < n) (h : n < len) :
    (range ⟨.unbounded, backBound n⟩).Selects len ⟨0, len - n⟩ := by
  have hstop : (backBound n).Stops len (len - n) := by
    rw [backBound, if_neg (Nat.ne_of_gt hpos)]
    exact .fromEnd (Nat.sub_add_cancel (Nat.le_of_lt h))
  exact .range .unbounded hstop (Nat.sub_pos_of_lt h)

/-- A range up to the negative zero ends where it starts. -/
theorem before_back_misses (h : n = 0 ∨ len ≤ n) :
    (range ⟨.unbounded, backBound n⟩).Misses len := by
  by_cases hzero : n = 0
  · subst hzero
    exact .empty .unbounded (.fromStart 0) (Nat.le_of_eq (Nat.zero_min len))
  · have hbound : backBound n = .fromEnd n := if_neg hzero
    rw [hbound]
    obtain hlt | rfl := Nat.lt_or_eq_of_le (h.resolve_left hzero)
    · exact .stopBefore rfl hlt
    · exact .empty .unbounded (.fromEnd (Nat.zero_add len)) (Nat.le_refl 0)

/-- A bound that does not reach before the start selects what comes from it on. -/
theorem behind_back_selects (hpos : 0 < n) (hlen : 0 < len) (h : n ≤ len) :
    (range ⟨backBound n, .unbounded⟩).Selects len ⟨len - n, len⟩ := by
  have hstart : (backBound n).Starts len (len - n) := by
    rw [backBound, if_neg (Nat.ne_of_gt hpos)]
    exact .fromEnd (Nat.sub_add_cancel h)
  exact .range hstart .unbounded (Nat.sub_lt hlen hpos)

theorem behind_back_misses (h : len < n) : (range ⟨backBound n, .unbounded⟩).Misses len :=
  .startBefore (if_neg (Nat.ne_zero_of_lt h)) h

/-- A range from the negative zero on starts at the front. -/
theorem behind_zero_selects (hzero : n = 0) (hlen : 0 < len) :
    (range ⟨backBound n, .unbounded⟩).Selects len (.all len) := by
  subst hzero
  exact .range (.fromStart 0) .unbounded hlen

/-- A negative number selects the index that is counted back. -/
theorem back_selects (hn : n < 2 ^ 53) (hpos : 0 < n) (h : n ≤ len) :
    (number (-ofNatural n)).Selects len (.single (len - n)) := by
  refine .number (readAs_small hn).nearestInt?_neg ?_ (by omega)
  rw [if_pos (by omega)]
  omega

theorem back_misses (hn : n < 2 ^ 53) (h : len < n) : (number (-ofNatural n)).Misses len :=
  .outside (readAs_small hn).nearestInt?_neg (.inl (by omega))

/-- Zero is not counted back: the sign of a negative zero is lost, and the first index is selected.
-/
theorem back_zero_selects (hzero : n = 0) (hlen : 0 < len) :
    (number (-ofNatural n)).Selects len (.single 0) := by
  subst hzero
  exact .number (readAs_small (by decide)).nearestInt?_neg rfl hlen

end Value

/-! ### The rows selected -/

/-- The rows before the last `n`. -/
def beforeBack (x : String) (ds : List Char) : String :=
  x ++ "[" ++ ("..^" ++ String.ofList ds) ++ "]"

/-- The last `n` rows. -/
def behindBack (x : String) (ds : List Char) : String :=
  x ++ "[" ++ ("^" ++ String.ofList ds ++ "..") ++ "]"

/-- The first of the last `n` rows. -/
def atBack (x : String) (ds : List Char) : String :=
  x ++ "[" ++ ("^" ++ String.ofList ds) ++ "]"

/-- The spans of a matrix that has some of its rows selected. -/
def rowSpans (m : Matrix) (rows : Span) : Axis → Span
  | .y => rows
  | .x => .all m.cols
  | .channel => .all m.channels

/-- The source is the part of the matrix that has the rows of the span. -/
def SelectsRows (env : Environment) (source : String) (m : Matrix) (rows : Span) : Prop :=
  ∃ part, evaluate env source = (.matrix part, env) ∧ part.IsPart m (rowSpans m rows)

/-- The source is a fault, and leaves the environment as it is. -/
def Fails (env : Environment) (source : String) : Prop :=
  ∃ fault, evaluate env source = (.error fault, env)

namespace Builtin

/-- A selector that stands for rows selects them with all columns and channels. -/
theorem invoke_rows {rows : Span} (hm : m.Valid) (h : v.Selects m.rows rows) :
    ∃ part, subMat.invoke [.matrix m, v] = .matrix part ∧ part.IsPart m (rowSpans m rows) := by
  have hspans (axis) :
      (selectorOn [v] axis).Selects (m.extent axis) (rowSpans m rows axis) := by
    cases axis with
    | y => exact h
    | x => exact Value.selects_full (hm.extent_pos .x)
    | channel => exact Value.selects_full (hm.extent_pos .channel)
  have hnumbers : ¬ ∀ axis, ∃ x, selectorOn [v] axis = .number x :=
    fun h => nomatch h .x
  obtain ⟨part, hselect, hpart⟩ := selectPart_block hm hspans hnumbers
  have hselectors : ∀ w ∈ [v], w.IsSelector := by simpa using h.isSelector
  refine ⟨part, ?_, hpart⟩
  rw [invoke_subMat (by simp) (by simp) hselectors, hselect]

theorem invoke_no_rows (h : v.Misses m.rows) :
    ∃ fault, subMat.invoke [.matrix m, v] = .error fault := by
  have hmisses : (selectorOn [v] .y).Misses (m.extent .y) := h
  obtain ⟨fault, hselect⟩ := selectPart_of_misses hmisses
  have hselectors : ∀ w ∈ [v], w.IsSelector := by simpa using h.isSelector
  refine ⟨fault, ?_⟩
  rw [invoke_subMat (by simp) (by simp) hselectors, hselect]

end Builtin

/-- An index of a variable by a source whose value is known. -/
theorem selectsRows_of_eval {rows : Span} (hx : isName x = true)
    (hvar : env.find? x = some (.matrix m)) (hm : m.Valid) (hparse : parse source = .ok e)
    (heval : e.eval env = (v, env)) (h : v.Selects m.rows rows) :
    SelectsRows env (x ++ "[" ++ source ++ "]") m rows := by
  obtain ⟨part, hinvoke, hpart⟩ := Builtin.invoke_rows hm h
  exact ⟨part, by rw [evaluate_index hx hvar hparse heval, hinvoke], hpart⟩

/-- An index whose selector misses the rows is an error, in the environment as it was. -/
theorem fails_of_eval (hx : isName x = true) (hvar : env.find? x = some (.matrix m))
    (hparse : parse source = .ok e) (heval : e.eval env = (v, env)) (h : v.Misses m.rows) :
    Fails env (x ++ "[" ++ source ++ "]") := by
  obtain ⟨fault, hinvoke⟩ := Builtin.invoke_no_rows h
  exact ⟨fault, by rw [evaluate_index hx hvar hparse heval, hinvoke]⟩

/-- An index `^n` of a variable counts the rows of its matrix from the end if `n` is not zero: `..^n`
leaves out the last `n` rows, `^n..` selects them, and `^n` alone selects the first of them. Where
`n` is zero it counts from the front: `..^0` selects nothing, `^0..` all rows and `^0` the first. -/
theorem rows_from_end (hx : isName x = true) (hvar : env.find? x = some (.matrix m)) (hm : m.Valid)
    (hds : IsDigits ds) (hn : digitsValue ds < 2 ^ 53) :
    (0 < digitsValue ds →
      (digitsValue ds < m.rows → SelectsRows env (beforeBack x ds) m ⟨0, m.rows - digitsValue ds⟩) ∧
      (m.rows ≤ digitsValue ds → Fails env (beforeBack x ds)) ∧
      (digitsValue ds ≤ m.rows →
        SelectsRows env (behindBack x ds) m ⟨m.rows - digitsValue ds, m.rows⟩ ∧
        SelectsRows env (atBack x ds) m (.single (m.rows - digitsValue ds))) ∧
      (m.rows < digitsValue ds → Fails env (behindBack x ds) ∧ Fails env (atBack x ds))) ∧
    (digitsValue ds = 0 →
      Fails env (beforeBack x ds) ∧ SelectsRows env (behindBack x ds) m (.all m.rows) ∧
      SelectsRows env (atBack x ds) m (.single 0)) := by
  have hrows := hm.rows_pos
  have hbefore := eval_before_back hn env
  have hbehind := eval_behind_back hn env
  have hat := eval_back (readAs_small hn) env
  refine ⟨fun hpos => ⟨fun hlt => ?_, fun hle => ?_, fun hle => ⟨?_, ?_⟩, fun hlt => ⟨?_, ?_⟩⟩,
    fun hzero => ⟨?_, ?_, ?_⟩⟩
  · exact selectsRows_of_eval hx hvar hm (parse_before_back hds) hbefore
      (Value.before_back_selects hpos hlt)
  · exact fails_of_eval hx hvar (parse_before_back hds) hbefore
      (Value.before_back_misses (.inr hle))
  · exact selectsRows_of_eval hx hvar hm (parse_behind_back hds) hbehind
      (Value.behind_back_selects hpos hrows hle)
  · exact selectsRows_of_eval hx hvar hm (parse_back hds) hat
      (Value.back_selects hn hpos hle)
  · exact fails_of_eval hx hvar (parse_behind_back hds) hbehind
      (Value.behind_back_misses hlt)
  · exact fails_of_eval hx hvar (parse_back hds) hat (Value.back_misses hn hlt)
  · exact fails_of_eval hx hvar (parse_before_back hds) hbefore
      (Value.before_back_misses (.inl hzero))
  · exact selectsRows_of_eval hx hvar hm (parse_behind_back hds) hbehind
      (Value.behind_zero_selects hzero hrows)
  · exact selectsRows_of_eval hx hvar hm (parse_back hds) hat (Value.back_zero_selects hzero hrows)

/-- The last two of three rows, and what stands before them. -/
theorem rows_from_end_two :
    SelectsRows (Environment.empty.bind "m" (.matrix ⟨.gray, 3, 1, 1, #[1, 2, 3]⟩)) "m[^2..]"
        ⟨.gray, 3, 1, 1, #[1, 2, 3]⟩ ⟨1, 3⟩ ∧
      SelectsRows (Environment.empty.bind "m" (.matrix ⟨.gray, 3, 1, 1, #[1, 2, 3]⟩)) "m[..^2]"
        ⟨.gray, 3, 1, 1, #[1, 2, 3]⟩ ⟨0, 1⟩ := by
  have hm : Matrix.Valid ⟨.gray, 3, 1, 1, #[1, 2, 3]⟩ := ⟨by decide, by decide, rfl, rfl, nofun⟩
  have hds : IsDigits ['2'] := ⟨by simp, by simp⟩
  obtain ⟨hback, -⟩ := rows_from_end (x := "m") (by decide) (Environment.find?_bind_self _ _ _) hm hds
    (by decide)
  obtain ⟨hbefore, -, hbehind, -⟩ := hback (by decide)
  exact ⟨(hbehind (by decide)).1, hbefore (by decide)⟩

/-- The range up to `^0` is not the whole matrix but an error, the range from `^0` on is no error but
the whole matrix, and `^0` is the first row. -/
theorem zero_from_end :
    Fails (Environment.empty.bind "m" (.matrix ⟨.gray, 2, 1, 1, #[1, 2]⟩)) "m[..^0]" ∧
      SelectsRows (Environment.empty.bind "m" (.matrix ⟨.gray, 2, 1, 1, #[1, 2]⟩)) "m[^0..]"
        ⟨.gray, 2, 1, 1, #[1, 2]⟩ ⟨0, 2⟩ ∧
      SelectsRows (Environment.empty.bind "m" (.matrix ⟨.gray, 2, 1, 1, #[1, 2]⟩)) "m[^0]"
        ⟨.gray, 2, 1, 1, #[1, 2]⟩ ⟨0, 1⟩ := by
  have hx : isName "m" = true := by decide
  have hm : Matrix.Valid ⟨.gray, 2, 1, 1, #[1, 2]⟩ := ⟨by decide, by decide, rfl, rfl, nofun⟩
  have hds : IsDigits ['0'] := ⟨by simp, by simp⟩
  have hvar := Environment.find?_bind_self Environment.empty "m" (.matrix ⟨.gray, 2, 1, 1, #[1, 2]⟩)
  have hzero : digitsValue ['0'] = 0 := by decide
  have hn : digitsValue ['0'] < 2 ^ 53 := by decide
  have hbefore : "m[..^0]" = beforeBack "m" ['0'] := by decide
  have hbehind : "m[^0..]" = behindBack "m" ['0'] := by decide
  have hat : "m[^0]" = atBack "m" ['0'] := by decide
  rw [hbefore, hbehind, hat]
  -- the range up to zero is empty, the one from zero on is everything, and zero itself is the first
  -- row
  refine ⟨?_, ?_, ?_⟩
  · exact fails_of_eval hx hvar (parse_before_back hds) (eval_before_back hn _)
      (Value.before_back_misses (.inl hzero))
  · exact selectsRows_of_eval hx hvar hm (parse_behind_back hds) (eval_behind_back hn _)
      (Value.behind_zero_selects hzero hm.rows_pos)
  · exact selectsRows_of_eval hx hvar hm (parse_back hds) (eval_back (readAs_small hn) _)
      (Value.back_zero_selects hzero hm.rows_pos)

end PixelCalc
