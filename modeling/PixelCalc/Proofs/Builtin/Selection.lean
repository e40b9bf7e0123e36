import PixelCalc.Proofs.Builtin.Results
import PixelCalc.Proofs.Builtin.Validity
import PixelCalc.Proofs.Sequencing

/-!
# Which part of a matrix is selected

Every selector stands for a span of its axis, or lies outside it. What is selected is the block that
three spans have in common, or its only number where all three selectors are numbers.

- `RangeBound.Starts`, `RangeBound.Stops`: where the bounds of a range lie on an axis.
- `Value.Selects`, `Value.Misses`: the span that a selector stands for, and the selectors that stand
  for none.
- `selects_of_select`, `misses_of_select` and their converses: selecting on one axis finds exactly
  these.
- `Matrix.IsPart`: a matrix is the block of another one at three spans.
- `invoke_subMat`: a call whose selectors all stand for spans, and one with a selector that does not.
- `subMat_selects`: what is selected, and when nothing is.
-/

namespace PixelCalc

/-! ### Positions on an axis -/

/-- A range that starts with the bound starts at the index. -/
inductive RangeBound.Starts (len : Nat) : RangeBound → Nat → Prop
  | unbounded : Starts len .unbounded 0
  | fromStart (n : Nat) : Starts len (.fromStart n) n
  | fromEnd {n start : Nat} (h : start + n = len) : Starts len (.fromEnd n) start

/-- A range that stops with the bound stops before the index; none goes on behind the axis. -/
inductive RangeBound.Stops (len : Nat) : RangeBound → Nat → Prop
  | unbounded : Stops len .unbounded len
  | fromStart (n : Nat) : Stops len (.fromStart n) (min n len)
  | fromEnd {n stop : Nat} (h : stop + n = len) : Stops len (.fromEnd n) stop

namespace Value

/-- The value is a number or a range. -/
def IsSelector : Value → Prop
  | number _ => True
  | range _ => True
  | _ => False

/-- The selector stands for the span on an axis of length `len`. -/
inductive Selects (len : Nat) : Value → Span → Prop
  | number {x : Float} {k : Int} {i : Nat} (hx : Binary64.nearestInt? x = some k)
      (hi : (i : Int) = if k < 0 then k + len else k) (hlt : i < len) :
      Selects len (.number x) ⟨i, i + 1⟩
  | range {r : IndexRange} {start stop : Nat} (hstart : r.start.Starts len start)
      (hstop : r.stop.Stops len stop) (hlt : start < stop) : Selects len (.range r) ⟨start, stop⟩

/-- The selector stands for nothing on an axis of length `len`. -/
inductive Misses (len : Nat) : Value → Prop
  | notFinite {x : Float} (h : x.isFinite = false) : Misses len (.number x)
  | outside {x : Float} {k : Int} (hx : Binary64.nearestInt? x = some k)
      (hk : k < -len ∨ len ≤ k) : Misses len (.number x)
  | startBehind {r : IndexRange} {n : Nat} (hstart : r.start = .fromStart n) (h : len ≤ n) :
      Misses len (.range r)
  | startBefore {r : IndexRange} {n : Nat} (hstart : r.start = .fromEnd n) (h : len < n) :
      Misses len (.range r)
  | stopBefore {r : IndexRange} {n : Nat} (hstop : r.stop = .fromEnd n) (h : len < n) :
      Misses len (.range r)
  | empty {r : IndexRange} {start stop : Nat} (hstart : r.start.Starts len start)
      (hstop : r.stop.Stops len stop) (h : stop ≤ start) : Misses len (.range r)

end Value

variable {len : Nat} {v : Value} {s : Span} {m : Matrix}

/-- The position that is computed for a start is the one that the bound stands for. -/
theorem RangeBound.position?_eq_some_iff {b : RangeBound} {start : Nat} :
    b.position? len 0 = some start ↔ b.Starts len start := by
  constructor
  · intro h
    cases b with
    | unbounded =>
      cases h
      exact .unbounded
    | fromStart n =>
      cases h
      exact .fromStart _
    | fromEnd n =>
      simp only [position?, Option.ite_none_right_eq_some, Option.some.injEq] at h
      exact .fromEnd (by omega)
  · intro h
    cases h with
    | unbounded => rfl
    | fromStart n => rfl
    | fromEnd h => simp [position?]; omega

/-- The position that is computed for a stop is the one that the bound stands for. -/
theorem IndexRange.stopPosition?_eq_some_iff {b : RangeBound} {stop : Nat} :
    stopPosition? len b = some stop ↔ b.Stops len stop := by
  constructor
  · intro h
    cases b with
    | unbounded =>
      cases h
      exact .unbounded
    | fromStart n =>
      cases h
      exact .fromStart n
    | fromEnd n =>
      simp only [stopPosition?, RangeBound.position?, Option.ite_none_right_eq_some,
        Option.some.injEq] at h
      exact .fromEnd (by omega)
  · intro h
    cases h with
    | unbounded => rfl
    | fromStart n => rfl
    | fromEnd h => simp [stopPosition?, RangeBound.position?]; omega

/-- A range resolves to the span between its bounds, if there is anything between them. -/
theorem IndexRange.resolve?_eq_some_iff {r : IndexRange} :
    r.resolve? len = some s ↔
      r.start.Starts len s.start ∧ r.stop.Stops len s.stop ∧ s.start < s.stop := by
  rw [← RangeBound.position?_eq_some_iff, ← stopPosition?_eq_some_iff]
  unfold resolve?
  obtain ⟨start, stop⟩ := s
  cases r.start.position? len 0 with
  | none => simp
  | some a =>
    cases stopPosition? len r.stop with
    | none => simp
    | some b =>
      simp only [Option.ite_none_right_eq_some, Option.some.injEq, Span.mk.injEq]
      constructor
      · rintro ⟨hlt, rfl, rfl⟩
        exact ⟨rfl, rfl, hlt⟩
      · rintro ⟨rfl, rfl, hlt⟩
        exact ⟨hlt, rfl, rfl⟩

/-- A range that does not resolve is empty or has a bound outside the axis. -/
theorem IndexRange.misses_of_resolve? {r : IndexRange} (h : r.resolve? len = none) :
    (Value.range r).Misses len := by
  unfold resolve? at h
  cases hstart : r.start.position? len 0 with
  | none =>
    cases hbound : r.start with
    | unbounded => simp [hbound, RangeBound.position?] at hstart
    | fromStart n => simp [hbound, RangeBound.position?] at hstart
    | fromEnd n =>
      rw [hbound] at hstart
      exact .startBefore hbound (by simpa [RangeBound.position?] using hstart)
  | some start =>
    cases hstop : stopPosition? len r.stop with
    | none =>
      cases hbound : r.stop with
      | unbounded => simp [hbound, stopPosition?, RangeBound.position?] at hstop
      | fromStart n => simp [hbound, stopPosition?] at hstop
      | fromEnd n =>
        rw [hbound] at hstop
        exact .stopBefore hbound (by simpa [stopPosition?, RangeBound.position?] using hstop)
    | some stop =>
      simp only [hstart, hstop, ite_eq_right_iff, reduceCtorEq, imp_false, Nat.not_lt] at h
      exact .empty (RangeBound.position?_eq_some_iff.mp hstart) (stopPosition?_eq_some_iff.mp hstop) h

/-- A range end behind the axis is as good as none. -/
theorem IndexRange.resolve?_clamp (start : RangeBound) {n : Nat} (h : len ≤ n) :
    resolve? ⟨start, .fromStart n⟩ len = resolve? ⟨start, .unbounded⟩ len := by
  have hstop : stopPosition? len (.fromStart n) = stopPosition? len .unbounded := by
    rw [stopPosition?, Nat.min_eq_right h]
    rfl
  unfold resolve?
  rw [hstop]

namespace Value

/-- A span that is selected has an index and ends on the axis. -/
theorem Selects.bounds (h : v.Selects len s) : s.start < s.stop ∧ s.stop ≤ len := by
  cases h with
  | number hx hi hlt => exact ⟨Nat.lt_succ_self _, hlt⟩
  | range hstart hstop hlt =>
    exact IndexRange.resolve?_bounds
      (IndexRange.resolve?_eq_some_iff.mpr ⟨hstart, hstop, hlt⟩)

/-- Only numbers and ranges select. -/
theorem Selects.isSelector (h : v.Selects len s) : v.IsSelector := by
  cases h <;> trivial

/-- Only numbers and ranges miss; other values are refused for their type. -/
theorem Misses.isSelector (h : v.Misses len) : v.IsSelector := by
  cases h <;> trivial

/-- The open range selects the whole axis, given that there is one. -/
theorem selects_full (h : 0 < len) : (range .full).Selects len (.all len) :=
  .range .unbounded .unbounded h

/-- A selector stands for a span or for nothing, never for both. -/
theorem Misses.not_selects (h : v.Misses len) : ¬ v.Selects len s := by
  intro hs
  -- each way to miss contradicts the one way in which the same value could select
  cases h with
  | notFinite h =>
    cases hs with
    | number hx => simp [Binary64.nearestInt?, h] at hx
  | outside hx hk =>
    cases hs with
    | number hx' hi hlt =>
      cases hx.symm.trans hx'
      split at hi <;> omega
  | startBehind hstart h =>
    have hb := hs.bounds
    cases hs with
    | range hstart' =>
      rw [hstart] at hstart'
      cases hstart'
      exact absurd hb.1 (Nat.not_lt.mpr (Nat.le_trans hb.2 h))
  | startBefore hstart h =>
    cases hs with
    | range hstart' =>
      rw [hstart] at hstart'
      cases hstart'
      omega
  | stopBefore hstop h =>
    cases hs with
    | range _ hstop' =>
      rw [hstop] at hstop'
      cases hstop'
      omega
  | empty hstart hstop h =>
    cases hs with
    | range hstart' hstop' hlt =>
      rw [← RangeBound.position?_eq_some_iff] at hstart hstart'
      rw [← IndexRange.stopPosition?_eq_some_iff] at hstop hstop'
      cases hstart.symm.trans hstart'
      cases hstop.symm.trans hstop'
      omega

end Value

namespace Builtin

variable {axis : Axis} {x : Float} {selection : Selection} {fault : Fault}

/-! ### Selecting on one axis -/

/-- The index that is computed for a number is the one that it selects, counted from the end if it
is negative. -/
theorem indexOn?_eq_some_iff {i : Nat} :
    indexOn? x len = some i ↔ (Value.number x).Selects len (.single i) := by
  constructor
  · intro h
    unfold indexOn? at h
    split at h
    · rename_i n hn
      rw [Option.ite_none_right_eq_some] at h
      obtain ⟨hlt, rfl⟩ : n < len ∧ n = i := by simpa using h
      exact .number hn (if_neg (Int.not_lt.mpr (Int.natCast_nonneg n))).symm hlt
    · rename_i n hn
      obtain ⟨hlt, rfl⟩ : n < len ∧ len - (n + 1) = i := by simpa using h
      exact .number hn (by rw [if_pos (Int.negSucc_lt_zero n)]; omega) (by omega)
    · cases h
  · intro h
    obtain ⟨k, hk, hi, hlt⟩ : ∃ k, Binary64.nearestInt? x = some k ∧
        (i : Int) = (if k < 0 then k + len else k) ∧ i < len := by
      cases h with
      | number hx hi hlt => exact ⟨_, hx, hi, hlt⟩
    unfold indexOn?
    rw [hk]
    cases k with
    | ofNat n =>
      obtain rfl : i = n :=
        Int.ofNat.inj (hi.trans (if_neg (Int.not_lt.mpr (Int.natCast_nonneg n))))
      exact if_pos hlt
    | negSucc n =>
      rw [if_pos (Int.negSucc_lt_zero n)] at hi
      have hn : n < len := by omega
      show (if n < len then some (len - (n + 1)) else none) = some i
      rw [if_pos hn]
      congr 1
      omega

/-- A number that selects no index is not finite or outside the axis. -/
theorem misses_of_indexOn? (h : indexOn? x len = none) : (Value.number x).Misses len := by
  unfold indexOn? at h
  split at h
  · rename_i n hn
    exact .outside hn (.inr (by simpa using h))
  · rename_i n hn
    refine .outside hn (.inl ?_)
    have hle : len ≤ n := by simpa using h
    omega
  · rename_i hnone
    refine .notFinite ?_
    unfold Binary64.nearestInt? at hnone
    split at hnone
    · cases hnone
    · rename_i hfinite
      simpa using hfinite

/-- A selection of a span; a number selects an index. -/
def Selection.of (v : Value) (s : Span) : Selection :=
  match v with
  | .number _ => .index s.start
  | _ => .span s

/-- A selector that stands for a span is accepted. -/
theorem select_of_selects (axis : Axis) (h : v.Selects len s) : select axis len v = .ok (.of v s) := by
  cases h with
  | number hx hi hlt =>
    rw [select, indexOn?_eq_some_iff.mpr (.number hx hi hlt)]
    rfl
  | @range r start stop hstart hstop hlt =>
    have hr : r.resolve? len = some ⟨start, stop⟩ :=
      IndexRange.resolve?_eq_some_iff.mpr ⟨hstart, hstop, hlt⟩
    rw [select, hr]
    rfl

theorem of_eq_index {i : Nat} (h : Selection.of v s = .index i) : ∃ x, v = .number x := by
  cases v with
  | number x => exact ⟨x, rfl⟩
  | _ => cases h

/-- What was selected, as a span again. -/
theorem toSpan_of (h : v.Selects len s) : (Selection.of v s).toSpan = s := by
  cases h <;> rfl

/-- A selector stands for one span at most. -/
theorem selects_unique {s' : Span} (h : v.Selects len s) (h' : v.Selects len s') : s = s' := by
  have hselect : Except.ok (Selection.of v s) = .ok (Selection.of v s') :=
    (select_of_selects .y h).symm.trans (select_of_selects .y h')
  rw [← toSpan_of h, ← toSpan_of h', Except.ok.inj hselect]

/-- A selector that is accepted stands for the span that it gives. -/
theorem selects_of_select (h : select axis len v = .ok selection) :
    v.Selects len selection.toSpan := by
  unfold select at h
  split at h
  · split at h
    · rename_i hi
      cases h
      exact indexOn?_eq_some_iff.mp hi
    · cases h
  · split at h
    · rename_i hs
      cases h
      obtain ⟨hstart, hstop, hlt⟩ := IndexRange.resolve?_eq_some_iff.mp hs
      exact .range hstart hstop hlt
    · cases h
  · cases h

/-- A number or a range that is refused stands for nothing on the axis. -/
theorem misses_of_select (hv : v.IsSelector) (h : select axis len v = .error fault) :
    v.Misses len := by
  unfold select at h
  split at h
  · split at h
    · cases h
    · rename_i hi
      exact misses_of_indexOn? hi
  · split at h
    · cases h
    · rename_i hs
      exact IndexRange.misses_of_resolve? hs
  · cases v <;> simp_all [Value.IsSelector]

/-- A selector does one or the other, because it is either accepted or refused. -/
theorem selects_or_misses (hv : v.IsSelector) : (∃ s, v.Selects len s) ∨ v.Misses len := by
  cases h : select .y len v with
  | ok selection => exact .inl ⟨_, selects_of_select h⟩
  | error fault => exact .inr (misses_of_select hv h)

end Builtin

/-! ### Selecting on all axes -/

namespace Matrix

/-- The length of a matrix along an axis. -/
def extent (m : Matrix) : Axis → Nat
  | .y => m.rows
  | .x => m.cols
  | .channel => m.channels

/-- The matrix is the block of `m` that the spans of the three axes have in common. -/
structure IsPart (part m : Matrix) (span : Axis → Span) : Prop where
  valid : part.Valid
  extent : ∀ axis, part.extent axis = (span axis).length
  get : ∀ i j k, i < part.rows → j < part.cols → k < part.channels →
    part.get? i j k = m.get? ((span .y).start + i) ((span .x).start + j) ((span .channel).start + k)
  kind : part.kind = if m.kind.accepts (span .channel).length then m.kind else .plain

/-- No axis of a valid matrix is empty. -/
theorem Valid.extent_pos (h : m.Valid) (axis : Axis) : 0 < m.extent axis := by
  cases axis with
  | y => exact h.rows_pos
  | x => exact h.cols_pos
  | channel => exact (MatrixKind.accepts_bounds h.accepts).1

theorem get?_eq_entry {i j k : Nat} (hi : i < m.rows) (hj : j < m.cols) (hk : k < m.channels) :
    m.get? i j k = some (m.entry i j k) :=
  if_pos ⟨hi, hj, hk⟩

/-- A block at three spans on the axes is a part, with the kind of the whole if that accepts its
channels. -/
theorem Valid.isPart_block {span : Axis → Span} (h : m.Valid)
    (hspan : ∀ axis, (span axis).start < (span axis).stop ∧ (span axis).stop ≤ m.extent axis) :
    (m.block (Builtin.partKind m.kind (span .channel).length) (span .y) (span .x)
      (span .channel)).IsPart m span := by
  have hpos (axis) : 0 < (span axis).length := Nat.sub_pos_of_lt (hspan axis).1
  have hlt {axis i} (hi : i < (span axis).length) : (span axis).start + i < m.extent axis := by
    have := hspan axis
    unfold Span.length at hi
    omega
  have hle : (span .channel).length ≤ 4 :=
    calc (span .channel).length ≤ m.channels := Nat.le_trans (Nat.sub_le ..) (hspan .channel).2
      _ ≤ 4 := (MatrixKind.accepts_bounds h.accepts).2
  obtain ⟨haccepts, hkind⟩ := @Builtin.partKind_accepts m.kind _ (hpos .channel) hle
  refine ⟨h.block (hpos .y) (hpos .x) haccepts hkind, fun axis => ?_, fun i j k hi hj hk => ?_, rfl⟩
  · cases axis <;> rfl
  · rw [get?_eq_entry hi hj hk, get?_eq_entry (hlt hi) (hlt hj) (hlt hk)]
    exact congrArg some (entry_tabulate hi hj hk)

end Matrix

namespace Builtin

variable {axis : Axis} {selectors : List Value} {span : Axis → Span} {fault : Fault}

/-- The selector of an axis; a missing one covers the axis. -/
def selectorOn (selectors : List Value) : Axis → Value
  | .y => selectors.getD 0 (.range .full)
  | .x => selectors.getD 1 (.range .full)
  | .channel => selectors.getD 2 (.range .full)

/-- Selects on the axes one after the other. -/
def selectPart (m : Matrix) (selector : Axis → Value) : Except Fault Value := do
  let y ← select .y m.rows (selector .y)
  let x ← select .x m.cols (selector .x)
  let channel ← select .channel m.channels (selector .channel)
  partOf m y x channel

/-- With one to three selectors the body selects on each axis; a selector that is left out is the
open range. -/
theorem runSubMat_eq_selectPart (hpos : 1 ≤ selectors.length) (hle : selectors.length ≤ 3) :
    runSubMat (.matrix m :: selectors) = selectPart m (selectorOn selectors) := by
  rcases selectors with _ | ⟨y, _ | ⟨x, _ | ⟨channel, _ | ⟨_, _⟩⟩⟩⟩
  · exact absurd hpos (by decide)
  · rfl
  · rfl
  · rfl
  · simp only [List.length_cons] at hle
    omega

/-- Selectors are no faults, so a call runs the body. -/
theorem invoke_subMat (hpos : 1 ≤ selectors.length) (hle : selectors.length ≤ 3)
    (hselectors : ∀ v ∈ selectors, v.IsSelector) :
    subMat.invoke (.matrix m :: selectors) =
      match selectPart m (selectorOn selectors) with
      | .ok v => v
      | .error fault => .error fault := by
  have hvalues : ∀ v ∈ Value.matrix m :: selectors, v.isError = false := by
    refine List.forall_mem_cons.mpr ⟨rfl, fun v hv => ?_⟩
    have := hselectors v hv
    cases v <;> first | rfl | exact this.elim
  have hbody : subMat.run (.matrix m :: selectors) = selectPart m (selectorOn selectors) :=
    runSubMat_eq_selectPart hpos hle
  cases hpart : selectPart m (selectorOn selectors) with
  | ok v => exact invoke_of_run hvalues (hbody.trans hpart)
  | error fault => exact invoke_of_fault hvalues (hbody.trans hpart)

/-- If all three selectors stand for spans, then the part is that of the spans. -/
theorem selectPart_of_selects {selector : Axis → Value}
    (h : ∀ axis, (selector axis).Selects (m.extent axis) (span axis)) :
    selectPart m selector = partOf m (.of (selector .y) (span .y)) (.of (selector .x) (span .x))
      (.of (selector .channel) (span .channel)) := by
  have hy : select .y m.rows (selector .y) = .ok _ := select_of_selects .y (h .y)
  have hx : select .x m.cols (selector .x) = .ok _ := select_of_selects .x (h .x)
  have hchannel : select .channel m.channels (selector .channel) = .ok _ :=
    select_of_selects .channel (h .channel)
  rw [selectPart, hy, hx, hchannel]
  rfl

/-- Numbers on all axes select an entry. -/
theorem selectPart_numbers {selector : Axis → Value}
    (h : ∀ axis, (selector axis).Selects (m.extent axis) (span axis))
    (hnumbers : ∀ axis, ∃ x, selector axis = .number x) :
    ∃ entry, m.get? (span .y).start (span .x).start (span .channel).start = some entry ∧
      selectPart m selector = .ok (.number entry) := by
  have hstart (axis) : (span axis).start < m.extent axis :=
    Nat.lt_of_lt_of_le (h axis).bounds.1 (h axis).bounds.2
  have hget := Matrix.get?_eq_entry (hstart .y) (hstart .x) (hstart .channel)
  obtain ⟨_, hy⟩ := hnumbers .y
  obtain ⟨_, hx⟩ := hnumbers .x
  obtain ⟨_, hchannel⟩ := hnumbers .channel
  refine ⟨_, hget, ?_⟩
  rw [selectPart_of_selects h, hy, hx, hchannel, Selection.of, Selection.of, Selection.of, partOf,
    hget]

/-- Selectors that are not all numbers select a block. -/
theorem selectPart_block {selector : Axis → Value} (hm : m.Valid)
    (h : ∀ axis, (selector axis).Selects (m.extent axis) (span axis))
    (hnumbers : ¬ ∀ axis, ∃ x, selector axis = .number x) :
    ∃ part, selectPart m selector = .ok (.matrix part) ∧ part.IsPart m span := by
  have hpart := hm.isPart_block fun axis => (h axis).bounds
  refine ⟨_, ?_, hpart⟩
  rw [selectPart_of_selects h]
  unfold partOf
  split
  · -- an index on every axis comes from numbers only
    rename_i hy hx hchannel
    refine absurd (fun axis => ?_) hnumbers
    cases axis with
    | y => exact of_eq_index hy
    | x => exact of_eq_index hx
    | channel => exact of_eq_index hchannel
  · rw [toSpan_of (h .y), toSpan_of (h .x), toSpan_of (h .channel), Matrix.check_of_valid hpart.valid]
    rfl

/-- One selector that stands for nothing is enough to select nothing. -/
theorem selectPart_of_misses {selector : Axis → Value}
    (h : (selector axis).Misses (m.extent axis)) : ∃ fault, selectPart m selector = .error fault := by
  cases hpart : selectPart m selector with
  | error fault => exact ⟨fault, rfl⟩
  | ok v =>
    obtain ⟨y, hy, hpart⟩ := bind_eq_ok hpart
    obtain ⟨x, hx, hpart⟩ := bind_eq_ok hpart
    obtain ⟨channel, hchannel, _⟩ := bind_eq_ok hpart
    cases axis with
    | y => exact absurd (selects_of_select hy) h.not_selects
    | x => exact absurd (selects_of_select hx) h.not_selects
    | channel => exact absurd (selects_of_select hchannel) h.not_selects

/-! ### An entry that is not there -/

/-- Selecting on an axis has errors of its own. -/
theorem select_ne_noEntry : select axis len v ≠ .error .noEntry := by
  unfold select
  split
  · split <;> nofun
  · split <;> nofun
  · nofun

/-- Three selections on the axes of a matrix find an entry. -/
theorem partOf_ne_noEntry {y x channel : Selection} (hy : y.toSpan.stop ≤ m.rows)
    (hx : x.toSpan.stop ≤ m.cols) (hchannel : channel.toSpan.stop ≤ m.channels) :
    partOf m y x channel ≠ .error .noEntry := by
  unfold partOf
  split
  · rw [Matrix.get?_eq_entry hy hx hchannel]
    nofun
  · unfold finish
    split <;> nofun

/-- An entry is looked up only where all three indices are on their axes, so it is there. -/
theorem selectPart_ne_noEntry {selector : Axis → Value} :
    selectPart m selector ≠ .error .noEntry := by
  intro h
  unfold selectPart at h
  obtain h | ⟨y, hy, h⟩ := bind_eq_error h
  · exact select_ne_noEntry h
  obtain h | ⟨x, hx, h⟩ := bind_eq_error h
  · exact select_ne_noEntry h
  obtain h | ⟨channel, hchannel, h⟩ := bind_eq_error h
  · exact select_ne_noEntry h
  exact partOf_ne_noEntry (selects_of_select hy).bounds.2 (selects_of_select hx).bounds.2
    (selects_of_select hchannel).bounds.2 h

/-- The error of a missing entry never comes up, whatever the arguments are. -/
theorem runSubMat_ne_noEntry (args : List Value) : runSubMat args ≠ .error .noEntry := by
  match args with
  | [] | [_] | _ :: _ :: _ :: _ :: _ :: _ => nofun
  | [mat, y] | [mat, y, x] | [mat, y, x, channel] =>
    cases mat with
    | matrix m =>
      rw [runSubMat_eq_selectPart (by simp) (by simp)]
      exact selectPart_ne_noEntry
    | _ => nofun

/-! ### The function -/

/-- A selector that is left out is a range, so there is a selector on every axis. -/
theorem isSelector_selectorOn (hselectors : ∀ v ∈ selectors, v.IsSelector) (axis : Axis) :
    (selectorOn selectors axis).IsSelector := by
  have hget (i : Nat) : (selectors.getD i (.range .full)).IsSelector := by
    rw [List.getD_eq_getElem?_getD]
    cases h : selectors[i]? with
    | none => trivial
    | some v => exact hselectors v (List.mem_of_getElem? h)
  cases axis <;> exact hget _

/-- `SubMat` of a valid matrix and one to three selectors is an error exactly if a selector stands
for nothing on its axis. Otherwise numbers on all three axes select an entry, and other selectors the
block that their spans have in common, which keeps the kind of the matrix if that accepts its
channels. A range goes no further than its axis and is never empty, and no call looks for an entry
that the matrix does not have. -/
theorem subMat_selects (hm : m.Valid) (hpos : 1 ≤ selectors.length) (hle : selectors.length ≤ 3)
    (hselectors : ∀ v ∈ selectors, v.IsSelector) :
    ((subMat.invoke (.matrix m :: selectors)).isError = true ↔
      ∃ axis, (selectorOn selectors axis).Misses (m.extent axis)) ∧
    ((subMat.invoke (.matrix m :: selectors)).isError = false →
      ∃ span : Axis → Span,
        (∀ axis s, (selectorOn selectors axis).Selects (m.extent axis) s ↔ s = span axis) ∧
        ((∀ axis, ∃ x, selectorOn selectors axis = .number x) →
          ∃ entry, m.get? (span .y).start (span .x).start (span .channel).start = some entry ∧
            subMat.invoke (.matrix m :: selectors) = .number entry) ∧
        ((¬ ∀ axis, ∃ x, selectorOn selectors axis = .number x) →
          ∃ part, subMat.invoke (.matrix m :: selectors) = .matrix part ∧ part.IsPart m span)) ∧
    (∀ (r : IndexRange) (len : Nat) (s : Span), r.resolve? len = some s →
      s.start < s.stop ∧ s.stop ≤ len) ∧
    (∀ (start : RangeBound) (len stop : Nat), len ≤ stop →
      IndexRange.resolve? ⟨start, .fromStart stop⟩ len = IndexRange.resolve? ⟨start, .unbounded⟩ len) ∧
    (∀ args, subMat.run args ≠ .error .noEntry) := by
  rw [invoke_subMat hpos hle hselectors]
  rw [← and_assoc]
  refine ⟨?_, fun _ _ _ => IndexRange.resolve?_bounds,
    fun start _ _ => IndexRange.resolve?_clamp start, runSubMat_ne_noEntry⟩
  -- 1. one selector misses, and its fault or that of an axis before it is returned
  by_cases hmisses : ∃ axis, (selectorOn selectors axis).Misses (m.extent axis)
  · obtain ⟨axis, haxis⟩ := hmisses
    obtain ⟨fault, hfault⟩ := selectPart_of_misses haxis
    rw [hfault]
    exact ⟨iff_of_true rfl ⟨axis, haxis⟩, nofun⟩
  -- 2. every selector stands for a span of its own axis
  · obtain ⟨span, hspan⟩ : ∃ span : Axis → Span,
        ∀ axis, (selectorOn selectors axis).Selects (m.extent axis) (span axis) :=
      Classical.axiomOfChoice fun axis =>
        (selects_or_misses (isSelector_selectorOn hselectors axis)).resolve_right fun h =>
          hmisses ⟨axis, h⟩
    have hspan' (axis) (s : Span) :
        (selectorOn selectors axis).Selects (m.extent axis) s ↔ s = span axis :=
      ⟨fun h => selects_unique h (hspan axis), fun h => h ▸ hspan axis⟩
    -- three numbers select an entry, anything else a block
    by_cases hnumbers : ∀ axis, ∃ x, selectorOn selectors axis = .number x
    · obtain ⟨entry, hget, hentry⟩ := selectPart_numbers hspan hnumbers
      rw [hentry]
      exact ⟨iff_of_false nofun hmisses, fun _ =>
        ⟨span, hspan', fun _ => ⟨entry, hget, rfl⟩, fun h => absurd hnumbers h⟩⟩
    · obtain ⟨part, hblock, hpart⟩ := selectPart_block hm hspan hnumbers
      rw [hblock]
      exact ⟨iff_of_false nofun hmisses, fun _ =>
        ⟨span, hspan', fun h => absurd h hnumbers, fun _ => ⟨part, rfl, hpart⟩⟩⟩

/-- The last row of a matrix, with a range that goes on behind the columns. -/
theorem subMat_selects_last :
    ∃ part : Matrix, subMat.invoke [.matrix ⟨.gray, 2, 2, 1, #[1, 2, 3, 4]⟩, .number (-1),
        .range ⟨.unbounded, .fromStart 5⟩] = .matrix part ∧
      part.rows = 1 ∧ part.cols = 2 ∧ part.get? 0 0 0 = some 3 := by
  have hm : Matrix.Valid ⟨.gray, 2, 2, 1, #[1, 2, 3, 4]⟩ :=
    ⟨by decide, by decide, rfl, rfl, nofun⟩
  have hlast : Binary64.nearestInt? (-1) = some (-1) := by decide
  have hlastRow : (Value.number (-1)).Selects 2 ⟨1, 2⟩ := .number hlast (by decide) (by decide)
  have hallCols : (Value.range ⟨.unbounded, .fromStart 5⟩).Selects 2 ⟨0, 2⟩ :=
    .range .unbounded (.fromStart 5) (by decide)
  have hselectors : ∀ v ∈ [Value.number (-1), .range ⟨.unbounded, .fromStart 5⟩], v.IsSelector := by
    simp [Value.IsSelector]
  obtain ⟨herror, hok, -⟩ := subMat_selects hm (by decide) (by decide) hselectors
  have hnone : ¬ ∃ axis, (selectorOn [.number (-1), .range ⟨.unbounded, .fromStart 5⟩] axis).Misses
      (Matrix.extent ⟨.gray, 2, 2, 1, #[1, 2, 3, 4]⟩ axis) := by
    rintro ⟨_ | _ | _, h⟩
    · exact h.not_selects hlastRow
    · exact h.not_selects hallCols
    · exact h.not_selects (Value.selects_full (by decide))
  obtain ⟨span, hspan, -, hpart⟩ := hok (by simpa using mt herror.mp hnone)
  obtain ⟨part, hinvoke, hpart⟩ := hpart fun h => nomatch h .x
  refine ⟨part, hinvoke, ?_⟩
  have hy : span .y = ⟨1, 2⟩ := ((hspan .y _).mp hlastRow).symm
  have hx : span .x = ⟨0, 2⟩ := ((hspan .x _).mp hallCols).symm
  have hchannel : span .channel = ⟨0, 1⟩ :=
    ((hspan .channel _).mp (Value.selects_full (by decide))).symm
  have hrows : part.rows = 1 := (hpart.extent .y).trans (congrArg Span.length hy)
  have hcols : part.cols = 2 := (hpart.extent .x).trans (congrArg Span.length hx)
  have hchannels : part.channels = 1 :=
    (hpart.extent .channel).trans (congrArg Span.length hchannel)
  refine ⟨hrows, hcols, ?_⟩
  rw [hpart.get 0 0 0 (by omega) (by omega) (by omega), hy, hx, hchannel]
  rfl

end Builtin

end PixelCalc
