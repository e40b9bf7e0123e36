import PixelCalc.Proofs.Builtin.Selection

/-!
# Slices of slices

A block of a block is a block of the whole matrix: its spans lie inside those of the outer block and
are counted from their starts. The kind is decided at each cut, and two cuts decide it as one does.

- `MatrixKind.accepts_of_between`: the numbers of channels that a kind accepts have no gap.
- `Span.within`: a span of what lies in another span.
- `Matrix.IsPart.trans`, `Matrix.IsPart.unique`: parts of parts, and parts that are the same.
- `invoke_ranges`: a call with a range on every axis selects a part.
- `subMat_subMat`: a slice of a slice is a slice.
-/

namespace PixelCalc

/-! ### Parts of parts -/

/-- Between two numbers of channels that a kind accepts there is none that it does not accept. -/
theorem MatrixKind.accepts_of_between {kind : MatrixKind} {low channels high : Nat}
    (hlow : kind.accepts low = true) (hhigh : kind.accepts high = true) (hle : low ≤ channels)
    (hge : channels ≤ high) : kind.accepts channels = true := by
  unfold accepts at *
  cases h : kind.fixedChannels? with
  | none =>
    simp only [h, Bool.and_eq_true, decide_eq_true_eq] at hlow hhigh ⊢
    omega
  | some n =>
    simp only [h, beq_iff_eq] at hlow hhigh ⊢
    omega

/-- The kind of a part of a part is that of a part. -/
theorem Builtin.partKind_partKind {kind : MatrixKind} {inner outer channels : Nat}
    (h : kind.accepts channels = true) (hinner : inner ≤ outer) (houter : outer ≤ channels) :
    partKind (partKind kind outer) inner = partKind kind inner := by
  by_cases hkept : kind.accepts outer = true
  · rw [partKind.eq_def kind outer, if_pos hkept]
  · -- a kind that is lost with more channels is not regained with fewer
    have hlost : ¬ kind.accepts inner = true := fun hkept' =>
      hkept (MatrixKind.accepts_of_between hkept' h hinner houter)
    rw [partKind.eq_def kind outer, if_neg hkept, partKind.eq_def kind inner, if_neg hlost]
    exact ite_self MatrixKind.plain

/-- The span that `inner` is of what lies in `outer`, counted as `outer` is. -/
def Span.within (outer inner : Span) : Span :=
  ⟨outer.start + inner.start, outer.start + inner.stop⟩

/-- A span within another one keeps its length. -/
theorem Span.length_within (outer inner : Span) : (outer.within inner).length = inner.length :=
  Nat.add_sub_add_left ..

namespace Matrix

variable {m part part' : Matrix} {span inner : Axis → Span}

/-- An index of a part lies on the axis of the whole. -/
theorem IsPart.start_add_lt (h : part.IsPart m span) (axis : Axis)
    (hspan : ∀ axis, (span axis).stop ≤ m.extent axis) {i : Nat} (hi : i < part.extent axis) :
    (span axis).start + i < m.extent axis := by
  have hlength := h.extent axis
  have hstop := hspan axis
  unfold Span.length at hlength
  omega

/-- A part of a part is a part. -/
theorem IsPart.trans (hm : m.Valid) (h : part.IsPart m span) (h' : part'.IsPart part inner)
    (hspan : ∀ axis, (span axis).stop ≤ m.extent axis)
    (hinner : ∀ axis, (inner axis).stop ≤ part.extent axis) :
    part'.IsPart m fun axis => (span axis).within (inner axis) := by
  refine ⟨h'.valid, fun axis => ?_, fun i j k hi hj hk => ?_, ?_⟩
  · rw [Span.length_within]
    exact h'.extent axis
  · rw [h'.get i j k hi hj hk, h.get _ _ _ (h'.start_add_lt .y hinner hi)
      (h'.start_add_lt .x hinner hj) (h'.start_add_lt .channel hinner hk)]
    simp only [Span.within, Nat.add_assoc]
  -- the kind is decided by the number of channels, which a part of a part can only have lowered
  -- further
  · have houter : (span .channel).length ≤ m.channels :=
      Nat.le_trans (Nat.sub_le ..) (hspan .channel)
    have hlength : (inner .channel).length ≤ (span .channel).length :=
      calc (inner .channel).length ≤ part.channels := Nat.le_trans (Nat.sub_le ..) (hinner .channel)
        _ = (span .channel).length := h.extent .channel
    rw [h'.kind, h.kind, Span.length_within]
    exact Builtin.partKind_partKind hm.accepts hlength houter

/-- A matrix has one part at the same spans. -/
theorem IsPart.unique (h : part.IsPart m span) (h' : part'.IsPart m span) : part = part' := by
  have hextent (axis) : part.extent axis = part'.extent axis :=
    (h.extent axis).trans (h'.extent axis).symm
  refine ext_of_entry (h.kind.trans h'.kind.symm) (hextent .y) (hextent .x) (hextent .channel)
    h.valid.size h'.valid.size fun i j k hi hj hk => ?_
  have hi' : i < part'.rows := Nat.lt_of_lt_of_eq hi (hextent .y)
  have hj' : j < part'.cols := Nat.lt_of_lt_of_eq hj (hextent .x)
  have hk' : k < part'.channels := Nat.lt_of_lt_of_eq hk (hextent .channel)
  have hget : part.get? i j k = part'.get? i j k :=
    (h.get i j k hi hj hk).trans (h'.get i j k hi' hj' hk').symm
  rw [get?_eq_entry hi hj hk, get?_eq_entry hi' hj' hk'] at hget
  exact Option.some.inj hget

end Matrix

/-! ### Ranges on every axis -/

open Builtin hiding min max

/-- The selector from `start` up to `stop`, both counted from the start of the axis. -/
def Value.between (start stop : Nat) : Value :=
  .range ⟨.fromStart start, .fromStart stop⟩

/-- A range on every axis, in the order of the parameters. -/
def Value.ranges (start stop : Axis → Nat) : List Value :=
  [between (start .y) (stop .y), between (start .x) (stop .x),
    between (start .channel) (stop .channel)]

variable {m : Matrix} {start stop : Axis → Nat}

theorem selectorOn_ranges (start stop : Axis → Nat) (axis : Axis) :
    selectorOn (Value.ranges start stop) axis = .between (start axis) (stop axis) := by
  cases axis <;> rfl

theorem isSelector_ranges (start stop : Axis → Nat) :
    ∀ v ∈ Value.ranges start stop, v.IsSelector := by
  simp [Value.ranges, Value.between, Value.IsSelector]

/-- A range from `start` up to `stop` ends with the axis, if not before. -/
theorem between_selects {start stop len : Nat} (h : start < min stop len) :
    (Value.between start stop).Selects len ⟨start, min stop len⟩ :=
  .range (.fromStart start) (.fromStart stop) h

/-- Ranges with an index on every axis select a part. -/
theorem invoke_ranges (hm : m.Valid) (h : ∀ axis, start axis < min (stop axis) (m.extent axis)) :
    ∃ part, subMat.invoke (.matrix m :: Value.ranges start stop) = .matrix part ∧
      part.IsPart m fun axis => ⟨start axis, min (stop axis) (m.extent axis)⟩ := by
  have hselects (axis) : (selectorOn (Value.ranges start stop) axis).Selects (m.extent axis)
      ⟨start axis, min (stop axis) (m.extent axis)⟩ := by
    rw [selectorOn_ranges]
    exact between_selects (h axis)
  -- a range is no number, so the part is a block also where it has one entry
  have hnumbers : ¬ ∀ axis, ∃ x, selectorOn (Value.ranges start stop) axis = .number x := by
    intro hall
    obtain ⟨x, hx⟩ := hall .y
    cases hx
  obtain ⟨part, hselect, hpart⟩ := selectPart_block hm hselects hnumbers
  refine ⟨part, ?_, hpart⟩
  rw [invoke_subMat (by simp [Value.ranges]) (by simp [Value.ranges]) (isSelector_ranges start stop),
    hselect]

/-- The slice from `c` up to `d` of the slice from `a` up to `b` is the slice from `a + c` up to
`a + d`, cut off at `b`, if neither slice is empty on any axis. -/
theorem subMat_subMat (hm : m.Valid) {a b c d : Axis → Nat}
    (hab : ∀ axis, a axis < min (b axis) (m.extent axis))
    (hcd : ∀ axis, c axis < min (d axis) (min (b axis) (m.extent axis) - a axis)) :
    ∃ part, subMat.invoke (subMat.invoke (.matrix m :: Value.ranges a b) :: Value.ranges c d) =
        .matrix part ∧
      subMat.invoke (.matrix m :: Value.ranges (fun axis => a axis + c axis)
        fun axis => min (a axis + d axis) (b axis)) = .matrix part ∧
      part.IsPart m fun axis =>
        ⟨a axis + c axis, min (min (a axis + d axis) (b axis)) (m.extent axis)⟩ := by
  obtain ⟨outer, houter, houterPart⟩ := invoke_ranges hm hab
  have hextent (axis) : outer.extent axis = min (b axis) (m.extent axis) - a axis :=
    houterPart.extent axis
  have hcd' (axis) : c axis < min (d axis) (outer.extent axis) := by
    rw [hextent]
    exact hcd axis
  obtain ⟨inner, hinner, hinnerPart⟩ := invoke_ranges houterPart.valid hcd'
  have hdirect (axis) : a axis + c axis <
      min (min (a axis + d axis) (b axis)) (m.extent axis) := by
    have := hab axis
    have := hcd axis
    omega
  obtain ⟨direct, hdirect, hdirectPart⟩ := invoke_ranges hm hdirect
  have hcomposed := houterPart.trans hm hinnerPart (fun axis => Nat.min_le_right ..)
    fun axis => Nat.min_le_right ..
  -- clamping twice and adding the offset is adding the offset and clamping once
  have hspan : (fun axis => Span.within ⟨a axis, min (b axis) (m.extent axis)⟩
        ⟨c axis, min (d axis) (outer.extent axis)⟩) =
      fun axis => ⟨a axis + c axis, min (min (a axis + d axis) (b axis)) (m.extent axis)⟩ := by
    funext axis
    have := hab axis
    have hstop : a axis + min (d axis) (min (b axis) (m.extent axis) - a axis) =
        min (min (a axis + d axis) (b axis)) (m.extent axis) := by
      omega
    rw [hextent, Span.within, hstop]
  rw [hspan] at hcomposed
  obtain rfl : inner = direct := hcomposed.unique hdirectPart
  exact ⟨inner, by rw [houter, hinner], hdirect, hdirectPart⟩

/-- The last entry of a matrix whose kind does not accept a single channel. -/
theorem subMat_subMat_last :
    ∃ part : Matrix,
      subMat.invoke (subMat.invoke (.matrix ⟨.grayAlpha, 2, 2, 2, #[1, 2, 3, 4, 5, 6, 7, 8]⟩ ::
        Value.ranges (fun _ => 1) fun _ => 9) :: Value.ranges (fun _ => 0) fun _ => 1) =
        .matrix part ∧
      part.kind = .plain ∧ part.get? 0 0 0 = some 8 := by
  have hm : Matrix.Valid ⟨.grayAlpha, 2, 2, 2, #[1, 2, 3, 4, 5, 6, 7, 8]⟩ :=
    ⟨by decide, by decide, rfl, rfl, nofun⟩
  obtain ⟨part, hnested, -, hpart⟩ := subMat_subMat hm
    (a := fun _ => 1) (b := fun _ => 9) (c := fun _ => 0) (d := fun _ => 1)
    (fun axis => by cases axis <;> decide) fun axis => by cases axis <;> decide
  have hextent (axis) : part.extent axis = 1 := by
    rw [hpart.extent]
    cases axis <;> rfl
  refine ⟨part, hnested, hpart.kind, ?_⟩
  rw [hpart.get 0 0 0 (Nat.lt_of_lt_of_eq Nat.one_pos (hextent .y).symm)
    (Nat.lt_of_lt_of_eq Nat.one_pos (hextent .x).symm)
    (Nat.lt_of_lt_of_eq Nat.one_pos (hextent .channel).symm)]
  rfl

end PixelCalc
