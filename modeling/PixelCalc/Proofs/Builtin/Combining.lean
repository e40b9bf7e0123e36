import PixelCalc.Proofs.Builtin.Channels

/-!
# Combining channels

`CombineChannels` puts the channels of several matrices side by side. A channel of the result is the
channel of one of the matrices, found by counting through them; so to combine the pieces of a matrix
gives it back, and it makes no difference which matrices have been combined before.

- `across`: the number that is reached by counting through the channels of several matrices.
- `sideBySide`: the matrix of all channels; `foldl_beside` says that putting one matrix beside the
  other gives it.
- `Pieces`: a matrix cut up; `Pieces.sideBySide_eq` puts it together.
- `sideBySide_flatten`: what is side by side already counts as the matrices it is made of.
- `Stackable`: matrices that can be combined; `Gathers`: arguments some of which have been combined.
- `combined_matrices`: what a call returns; `combined_isError_iff`: when it fails.
- `Matrix.RejoiningLaws`, `CombiningLaws`, `combining_laws`: the laws, and that they hold.
-/

namespace PixelCalc

open Builtin hiding min max

variable {m n first : Matrix} {ms before after : List Matrix} {rows cols row col channel i k : Nat}
  {x y : Float} {kind : MatrixKind}

/-! ### Side by side -/

namespace Matrix

/-- The number at a pixel in the channel that is reached by counting through matrices. -/
def across : List Matrix → Nat → Nat → Nat → Float
  | [], _, _, _ => 0
  | m :: ms, row, col, channel =>
    if channel < m.channels then m.entry row col channel
    else across ms row col (channel - m.channels)

/-- The channels of all matrices, as plain numbers. -/
def sideBySide (rows cols : Nat) (ms : List Matrix) : Matrix :=
  tabulate .plain rows cols (totalChannels ms) (across ms)

/-- Channels of two lists of matrices are counted one after the other. -/
theorem totalChannels_append (before after : List Matrix) :
    totalChannels (before ++ after) = totalChannels before + totalChannels after := by
  induction before with
  | nil => exact (Nat.zero_add _).symm
  | cons m before ih =>
    show m.channels + totalChannels (before ++ after) = m.channels + totalChannels before + _
    rw [ih, Nat.add_assoc]

/-- Counting that ends among the first matrices does not see the others. -/
theorem across_append_left (h : channel < totalChannels before) :
    across (before ++ after) row col channel = across before row col channel := by
  induction before generalizing channel with
  | nil => exact absurd h (Nat.not_lt_zero _)
  | cons m before ih =>
    show (if channel < m.channels then _ else _) = if channel < m.channels then _ else _
    split
    · rfl
    · have h : channel < m.channels + totalChannels before := h
      exact ih (by omega)

/-- Counting past the first matrices goes on among the others. -/
theorem across_append_right (channel : Nat) :
    across (before ++ after) row col (totalChannels before + channel) =
      across after row col channel := by
  induction before with
  | nil =>
    show across after row col (0 + channel) = _
    rw [Nat.zero_add]
  | cons m before ih =>
    show (if m.channels + totalChannels before + channel < m.channels then _
      else across (before ++ after) row col
        (m.channels + totalChannels before + channel - m.channels)) = _
    rw [if_neg (by omega), Nat.add_assoc, Nat.add_sub_cancel_left, ih]

/-- Beside each other, two matrices count as one. -/
theorem across_beside (hrow : row < m.rows) (hcol : col < m.cols) :
    across (m.beside n :: ms) row col channel = across (m :: n :: ms) row col channel := by
  show (if channel < m.channels + n.channels then (m.beside n).entry row col channel
    else across ms row col (channel - (m.channels + n.channels))) =
      if channel < m.channels then m.entry row col channel
      else if channel - m.channels < n.channels then n.entry row col (channel - m.channels)
      else across ms row col (channel - m.channels - n.channels)
  by_cases hboth : channel < m.channels + n.channels
  · rw [if_pos hboth, beside, entry_tabulate hrow hcol hboth]
    split
    · rfl
    · rw [if_pos (by omega)]
  · rw [if_neg hboth, if_neg (by omega), if_neg (by omega), Nat.sub_sub]

/-- To put one matrix beside the other puts all side by side. -/
theorem foldl_beside (h : first.data.size = first.rows * first.cols * first.channels)
    (rest : List Matrix) :
    (rest.foldl beside first).retag .plain = sideBySide first.rows first.cols (first :: rest) := by
  -- Induction on the matrices that are still to be put beside; the first one has grown by those
  -- before.
  induction rest generalizing first with
  | nil =>
    rw [List.foldl_nil, retag_eq_tabulate h]
    refine tabulate_congr fun row col channel _ _ hchannel => ?_
    exact (if_pos hchannel).symm
  | cons n rest ih =>
    have hsize : (first.beside n).data.size =
        (first.beside n).rows * (first.beside n).cols * (first.beside n).channels :=
      size_tabulate ..
    rw [List.foldl_cons, ih hsize]
    have htotal : totalChannels (first.beside n :: rest) = totalChannels (first :: n :: rest) :=
      Nat.add_assoc ..
    show tabulate .plain first.rows first.cols (totalChannels (first.beside n :: rest)) _ = _
    rw [htotal]
    exact tabulate_congr fun row col channel hrow hcol _ => across_beside hrow hcol

/-- An entry of the matrix side by side is found by counting. -/
theorem entry_sideBySide (hrow : row < rows) (hcol : col < cols)
    (hchannel : channel < totalChannels ms) :
    (sideBySide rows cols ms).entry row col channel = across ms row col channel :=
  entry_tabulate hrow hcol hchannel

/-- A channel of matrices side by side is the channel of the matrix that is reached. -/
theorem channelBlock_sideBySide (kind : MatrixKind) (before after : List Matrix)
    (hk : k < m.channels) :
    (sideBySide m.rows m.cols (before ++ m :: after)).channelBlock kind
        (.single (totalChannels before + k)) = m.channelBlock kind (.single k) := by
  have htotal : totalChannels (before ++ m :: after) =
      totalChannels before + (m.channels + totalChannels after) := totalChannels_append ..
  rw [channelBlock_eq, channelBlock_eq, length_single, length_single]
  refine tabulate_congr fun row col channel (hrow : row < m.rows) (hcol : col < m.cols)
    hchannel => ?_
  have hzero : channel = 0 := by omega
  subst hzero
  show (sideBySide m.rows m.cols (before ++ m :: after)).entry row col
    (totalChannels before + k) = _
  rw [entry_sideBySide hrow hcol (by omega), across_append_right]
  exact if_pos hk

/-- Every channel is reached in one of the matrices. -/
theorem exists_reached (h : channel < totalChannels ms) :
    ∃ before m after k, ms = before ++ m :: after ∧ k < m.channels ∧
      channel = totalChannels before + k := by
  induction ms generalizing channel with
  | nil => exact absurd h (Nat.not_lt_zero _)
  | cons m ms ih =>
    by_cases hhere : channel < m.channels
    · exact ⟨[], m, ms, channel, rfl, hhere, (Nat.zero_add _).symm⟩
    · have h : channel < m.channels + totalChannels ms := h
      obtain ⟨before, n, after, k, rfl, hk, hchannel⟩ := @ih (channel - m.channels) (by omega)
      refine ⟨m :: before, n, after, k, rfl, hk, ?_⟩
      show channel = m.channels + totalChannels before + k
      omega

/-! ### In pieces -/

/-- The channels of a matrix from some channel on, cut into pieces. -/
inductive Pieces (m : Matrix) : Nat → List Matrix → Prop
  | nil : Pieces m m.channels []
  | cons {first next : Nat} {pieces : List Matrix} (kind : MatrixKind) : first ≤ next →
      Pieces m next pieces → Pieces m first (m.channelBlock kind ⟨first, next⟩ :: pieces)

/-- The single channels are pieces. -/
theorem pieces_range' {first count : Nat} (h : first + count = m.channels) :
    Pieces m first ((List.range' first count).map fun i => m.channelBlock .plain (.single i)) := by
  induction count generalizing first with
  | zero =>
    have hfirst : first = m.channels := h
    exact hfirst ▸ .nil
  | succ count ih => exact .cons .plain (Nat.le_succ first) (ih (by omega))

/-- Pieces reach from the channel at which they begin to the last one. -/
theorem Pieces.total (h : Pieces m i ms) : i + totalChannels ms = m.channels := by
  induction h with
  | nil => rfl
  | @cons first next pieces kind hle _ ih =>
    show first + (next - first + totalChannels pieces) = m.channels
    omega

theorem Pieces.size (h : Pieces m i ms) : ∀ n ∈ ms, n.rows = m.rows ∧ n.cols = m.cols := by
  induction h with
  | nil => exact List.forall_mem_nil _
  | cons kind hle _ ih => exact List.forall_mem_cons.mpr ⟨⟨rfl, rfl⟩, ih⟩

/-- Counting through the pieces finds the channels of the matrix in order. -/
theorem Pieces.across_eq (h : Pieces m i ms) (hrow : row < m.rows) (hcol : col < m.cols)
    (hchannel : channel < totalChannels ms) :
    across ms row col channel = m.entry row col (i + channel) := by
  -- Induction on the pieces: a channel of the first one is as far from its beginning as it is
  -- counted, and the others begin where it ends.
  induction h generalizing channel with
  | nil => exact absurd hchannel (Nat.not_lt_zero _)
  | @cons first next pieces kind hle _ ih =>
    have htotal : channel < next - first + totalChannels pieces := hchannel
    show (if channel < next - first then (m.channelBlock kind ⟨first, next⟩).entry row col channel
      else across pieces row col (channel - (next - first))) = _
    split
    · rename_i hhere
      exact entry_channelBlock hrow hcol hhere
    · rw [ih (by omega)]
      congr 1
      omega

/-- Side by side, all pieces of a matrix are the matrix. -/
theorem Pieces.sideBySide_eq (h : Pieces m 0 ms)
    (hsize : m.data.size = m.rows * m.cols * m.channels) :
    sideBySide m.rows m.cols ms = m.retag .plain := by
  have htotal : totalChannels ms = m.channels := (Nat.zero_add _).symm.trans h.total
  rw [retag_eq_tabulate hsize, ← htotal]
  refine tabulate_congr fun row col channel hrow hcol hchannel => ?_
  rw [h.across_eq hrow hcol hchannel, Nat.zero_add]

/-! ### Matrices that stand for several -/

/-- What is side by side already counts as the matrices that it is made of. -/
theorem sideBySide_flatten (inner ms : List Matrix) :
    sideBySide rows cols (sideBySide rows cols inner :: ms) =
      sideBySide rows cols (inner ++ ms) := by
  have htotal : totalChannels (sideBySide rows cols inner :: ms) = totalChannels (inner ++ ms) :=
    (totalChannels_append ..).symm
  unfold sideBySide
  rw [← htotal]
  refine tabulate_congr fun row col channel hrow hcol hchannel => ?_
  show (if channel < totalChannels inner then (sideBySide rows cols inner).entry row col channel
    else across ms row col (channel - totalChannels inner)) = _
  split
  · rename_i hhere
    rw [entry_sideBySide hrow hcol hhere, across_append_left hhere]
  · rename_i hthere
    have hback : channel = totalChannels inner + (channel - totalChannels inner) := by omega
    rw [hback, across_append_right, Nat.add_sub_cancel_left]

/-- Matrices that are the same side by side are so behind one more matrix. -/
theorem sideBySide_cons_congr {ms' : List Matrix} (m : Matrix)
    (h : sideBySide rows cols ms = sideBySide rows cols ms') :
    sideBySide rows cols (m :: ms) = sideBySide rows cols (m :: ms') := by
  have htotal : totalChannels ms = totalChannels ms' := congrArg Matrix.channels h
  unfold sideBySide
  show tabulate .plain rows cols (m.channels + totalChannels ms) _ =
    tabulate .plain rows cols (m.channels + totalChannels ms') _
  rw [htotal]
  refine tabulate_congr fun row col channel hrow hcol hchannel => ?_
  show (if channel < m.channels then m.entry row col channel
    else across ms row col (channel - m.channels)) =
      if channel < m.channels then m.entry row col channel
      else across ms' row col (channel - m.channels)
  -- the channels of the matrix in front are untouched, those behind it are entries of the two that
  -- are equal
  split
  · rfl
  · have hthere : channel - m.channels < totalChannels ms' := by omega
    rw [← entry_sideBySide hrow hcol hthere, ← h, entry_sideBySide hrow hcol (htotal ▸ hthere)]

end Matrix

/-! ### Calls -/

/-- Valid matrices of one size with at most four channels in all. -/
structure Stackable (rows cols : Nat) (ms : List Matrix) : Prop where
  valid : ∀ m ∈ ms, m.Valid
  size : ∀ m ∈ ms, m.rows = rows ∧ m.cols = cols
  total : totalChannels ms ≤ 4

/-- All channels of several values. -/
def Value.combined (vs : List Value) : Value :=
  combineChannels.invoke vs

/-- The values are the matrices, some of which have been combined before. -/
inductive Gathers : List Value → List Matrix → Prop
  | nil : Gathers [] []
  | matrix {vs ms} (m : Matrix) : Gathers vs ms → Gathers (.matrix m :: vs) (m :: ms)
  | combined {args inner vs ms} : inner ≠ [] → Gathers args inner → Gathers vs ms →
      Gathers (Value.combined args :: vs) (inner ++ ms)

namespace Builtin

/-- Matrices are accepted as matrices. -/
theorem matrixArguments_map (f : Builtin) (ms : List Matrix) :
    matrixArguments f (ms.map Value.matrix) = .ok ms := by
  induction ms with
  | nil => rfl
  | cons m ms ih =>
    show (do return m :: (← matrixArguments f (ms.map Value.matrix))) = _
    rw [ih]
    rfl

/-- The check goes through iff all matrices have the size of the first one. -/
theorem checkSizes_eq_ok_iff {f : Builtin} :
    checkSizes f first ms = .ok () ↔ ∀ m ∈ ms, m.sameSize first = true := by
  induction ms with
  | nil => exact ⟨fun _ => List.forall_mem_nil _, fun _ => rfl⟩
  | cons m ms ih =>
    rw [List.forall_mem_cons, ← ih, checkSizes, checkSize]
    by_cases hsize : m.sameSize first = true
    · rw [if_pos hsize]
      exact ⟨fun h => ⟨hsize, h⟩, And.right⟩
    · rw [if_neg hsize]
      refine iff_of_false (fun h => ?_) fun h => hsize h.1
      cases h

end Builtin

namespace Value

/-- The body of a call with matrices. -/
theorem run_combineChannels (first : Matrix) (rest : List Matrix) :
    combineChannels.run ((first :: rest).map Value.matrix) = (do
      checkSizes combineChannels first rest
      if 4 < totalChannels (first :: rest) then
        throw (.tooManyChannels (totalChannels (first :: rest)))
      return Value.matrix (← built (first.stack rest))) := by
  show runCombineChannels _ = _
  unfold runCombineChannels
  rw [matrixArguments_map]
  rfl

theorem isError_map_matrix (ms : List Matrix) : ∀ v ∈ ms.map Value.matrix, v.isError = false :=
  List.forall_mem_map.mpr fun _ _ => rfl

/-- A call with matrices that can be combined puts them side by side. -/
theorem combined_matrices (hne : ms ≠ []) (h : Stackable rows cols ms) :
    combined (ms.map Value.matrix) = .matrix (Matrix.sideBySide rows cols ms) := by
  cases ms with
  | nil => exact absurd rfl hne
  | cons first rest =>
    obtain ⟨hfirst, hrest⟩ := List.forall_mem_cons.mp h.valid
    obtain ⟨⟨hrows, hcols⟩, hsizes⟩ := List.forall_mem_cons.mp h.size
    -- 1. all matrices have the size of the first one
    have hchecked : checkSizes combineChannels first rest = .ok () :=
      checkSizes_eq_ok_iff.mpr fun m hm => Matrix.sameSize_iff.mpr
        ⟨(hsizes m hm).1.trans hrows.symm, (hsizes m hm).2.trans hcols.symm⟩
    -- 2. putting one beside the other builds the matrix side by side
    have hstack : first.stack rest = .ok (Matrix.sideBySide rows cols (first :: rest)) := by
      have hwf := wellFormed_foldl_beside hfirst.wellFormed h.total
      rw [Matrix.stack, hwf.generic, Matrix.foldl_beside hfirst.size, hrows, hcols]
    -- 3. with both checks passed the call returns it
    refine invoke_of_run (isError_map_matrix _) ((run_combineChannels first rest).trans ?_)
    rw [hchecked, if_neg (Nat.not_lt.mpr h.total), hstack]
    rfl

/-- A call with valid matrices fails if they have too many channels or sizes that differ, and only
then. -/
theorem combined_isError_iff (hne : ms ≠ []) (hvalid : ∀ m ∈ ms, m.Valid) :
    (combined (ms.map Value.matrix)).isError = true ↔
      4 < totalChannels ms ∨ ∃ a ∈ ms, ∃ b ∈ ms, a.sameSize b = false := by
  cases ms with
  | nil => exact absurd rfl hne
  | cons first rest =>
    have hvalues := isError_map_matrix (first :: rest)
    have hrun := run_combineChannels first rest
    -- sizes are compared with the first one, before channels are counted
    by_cases hsizes : ∀ m ∈ rest, m.sameSize first = true
    · have hequal : ∀ m ∈ first :: rest, m.rows = first.rows ∧ m.cols = first.cols :=
        List.forall_mem_cons.mpr ⟨⟨rfl, rfl⟩, fun m hm => Matrix.sameSize_iff.mp (hsizes m hm)⟩
      have hsame : ¬∃ a ∈ first :: rest, ∃ b ∈ first :: rest, a.sameSize b = false := by
        rintro ⟨a, ha, b, hb, hdiffer⟩
        have hsize : a.sameSize b = true := Matrix.sameSize_iff.mpr
          ⟨(hequal a ha).1.trans (hequal b hb).1.symm, (hequal a ha).2.trans (hequal b hb).2.symm⟩
        exact Bool.noConfusion (hsize.symm.trans hdiffer)
      rw [or_iff_left hsame]
      by_cases htotal : 4 < totalChannels (first :: rest)
      · rw [checkSizes_eq_ok_iff.mpr hsizes, if_pos htotal] at hrun
        exact iff_of_true (congrArg isError (invoke_of_fault hvalues hrun)) htotal
      · have hstackable : Stackable first.rows first.cols (first :: rest) :=
          ⟨hvalid, hequal, Nat.not_lt.mp htotal⟩
        rw [combined_matrices hne hstackable]
        exact iff_of_false nofun htotal
    · have hdiffer : ∃ a ∈ first :: rest, ∃ b ∈ first :: rest, a.sameSize b = false := by
        obtain ⟨m, hm, hsize⟩ : ∃ m ∈ rest, ¬m.sameSize first = true := by simpa using hsizes
        exact ⟨m, List.mem_cons_of_mem first hm, first, List.mem_cons_self,
          Bool.eq_false_iff.mpr hsize⟩
      refine iff_of_true ?_ (.inr hdiffer)
      cases hchecked : checkSizes combineChannels first rest with
      | ok checked => exact absurd (checkSizes_eq_ok_iff.mp hchecked) hsizes
      | error fault =>
        rw [hchecked] at hrun
        exact congrArg isError (invoke_of_fault hvalues hrun)

end Value

/-! ### Matrices that can be combined -/

namespace Stackable

variable {args : List Value}

/-- Matrices can be combined in two parts iff each part can be combined and the channels are few
enough in all. -/
theorem append_iff : Stackable rows cols (before ++ after) ↔
    Stackable rows cols before ∧ Stackable rows cols after ∧
      totalChannels before + totalChannels after ≤ 4 := by
  have htotal := Matrix.totalChannels_append before after
  constructor
  · intro h
    obtain ⟨hbefore, hafter⟩ := List.forall_mem_append.mp h.valid
    obtain ⟨hsizes, hsizes'⟩ := List.forall_mem_append.mp h.size
    have hle := htotal ▸ h.total
    exact ⟨⟨hbefore, hsizes, Nat.le_of_add_right_le hle⟩,
      ⟨hafter, hsizes', Nat.le_of_add_left_le hle⟩, hle⟩
  · rintro ⟨hbefore, hafter, hle⟩
    exact ⟨List.forall_mem_append.mpr ⟨hbefore.valid, hafter.valid⟩,
      List.forall_mem_append.mpr ⟨hbefore.size, hafter.size⟩, htotal ▸ hle⟩

/-- Valid matrices side by side are valid. -/
theorem sideBySide_valid (hne : ms ≠ []) (h : Stackable rows cols ms) :
    (Matrix.sideBySide rows cols ms).Valid := by
  have hvalue : (Value.combined (ms.map Value.matrix)).Valid :=
    valid_invoke combineChannels (List.forall_mem_map.mpr h.valid)
  rw [Value.combined_matrices hne h] at hvalue
  exact hvalue

/-- What was combined can be combined again. -/
theorem sideBySide (hne : ms ≠ []) (h : Stackable rows cols ms) :
    Stackable rows cols [Matrix.sideBySide rows cols ms] :=
  ⟨List.forall_mem_singleton.mpr (h.sideBySide_valid hne),
    List.forall_mem_singleton.mpr ⟨rfl, rfl⟩, h.total⟩

/-- Arguments that have been combined before are matrices that can be combined, with the same
channels side by side. -/
theorem gathered (hgathers : Gathers args ms) (h : Stackable rows cols ms) :
    ∃ ns, args = ns.map Value.matrix ∧ (ms ≠ [] → ns ≠ []) ∧ Stackable rows cols ns ∧
      Matrix.sideBySide rows cols ns = Matrix.sideBySide rows cols ms := by
  induction hgathers with
  | nil => exact ⟨[], rfl, id, h, rfl⟩
  | @matrix vs ms m _ ih =>
    have h : Stackable rows cols ([m] ++ ms) := h
    obtain ⟨hm, hms, hle⟩ := append_iff.mp h
    obtain ⟨ns, rfl, -, hns, hequal⟩ := ih hms
    have htotal : totalChannels ns = totalChannels ms := congrArg Matrix.channels hequal
    have hall : Stackable rows cols ([m] ++ ns) := append_iff.mpr ⟨hm, hns, htotal ▸ hle⟩
    exact ⟨m :: ns, rfl, fun _ => List.cons_ne_nil m ns, hall,
      Matrix.sideBySide_cons_congr m hequal⟩
  | @combined args inner vs ms hne _ _ ihinner ih =>
    -- what was combined before is one matrix with the channels of all that it was made of
    obtain ⟨hinner, hms, hle⟩ := append_iff.mp h
    obtain ⟨ns, rfl, hnonempty, hns, hequal⟩ := ihinner hinner
    obtain ⟨rest, rfl, -, hrest, hequal'⟩ := ih hms
    have hone : Stackable rows cols [Matrix.sideBySide rows cols inner] := hinner.sideBySide hne
    have htotal : totalChannels rest = totalChannels ms := congrArg Matrix.channels hequal'
    have hall : Stackable rows cols ([Matrix.sideBySide rows cols inner] ++ rest) :=
      append_iff.mpr ⟨hone, hrest, htotal ▸ hle⟩
    refine ⟨Matrix.sideBySide rows cols inner :: rest, ?_, fun _ => List.cons_ne_nil _ rest, hall,
      ?_⟩
    · rw [List.map_cons, Value.combined_matrices (hnonempty hne) hns, hequal]
    · exact (Matrix.sideBySide_cons_congr _ hequal').trans (Matrix.sideBySide_flatten inner ms)

end Stackable

theorem Matrix.Pieces.stackable (hm : m.Valid) (hpieces : m.Pieces 0 ms)
    (hvalid : ∀ n ∈ ms, n.Valid) : Stackable m.rows m.cols ms :=
  have hfour := (MatrixKind.accepts_bounds hm.accepts).2
  ⟨hvalid, hpieces.size, Nat.le_trans (Nat.le_of_add_left_le (Nat.le_of_eq hpieces.total)) hfour⟩

/-! ### The laws -/

/-- The laws of combining what was taken out of a matrix. -/
structure Matrix.RejoiningLaws (m : Matrix) : Prop where
  combined_channels {index : Nat → Float} : (∀ i < m.channels, m.HasChannel (index i) i) →
    (Value.combined ((List.range m.channels).map fun i =>
      (Value.matrix m).channel (index i))).SameMatrix (Value.matrix m).plain
  combined_rgb {x : Float} : m.channels = 4 → m.HasChannel x 3 →
    (Value.combined [(Value.matrix m).rgb, (Value.matrix m).channel x]).SameMatrix
      (Value.matrix m).plain

/-- The laws of combining matrices. -/
structure CombiningLaws (rows cols : Nat) (ms : List Matrix) : Prop where
  shape : ∃ out, Value.combined (ms.map .matrix) = .matrix out ∧ out.Valid ∧ out.kind = .plain ∧
    out.rows = rows ∧ out.cols = cols ∧ out.channels = totalChannels ms
  reached {j : Nat} : j < totalChannels ms →
    ∃ before m after k, ms = before ++ m :: after ∧ k < m.channels ∧ j = totalChannels before + k
  channel {before after : List Matrix} {m : Matrix} {x y : Float} {k : Nat} :
    ms = before ++ m :: after → m.HasChannel y k →
      Binary64.nearestInt? x = some ((totalChannels before + k : Nat) : Int) →
        ((Value.combined (ms.map .matrix)).channel x).SameMatrix ((Value.matrix m).channel y)
  nested {args : List Value} : Gathers args ms →
    (Value.combined args).SameMatrix (Value.combined (ms.map .matrix))

namespace Matrix.Valid

open Value

/-- To combine all pieces of a matrix gives it back. -/
theorem combined_pieces (hm : m.Valid) (hpieces : m.Pieces 0 ms) (hvalid : ∀ n ∈ ms, n.Valid) :
    (combined (ms.map Value.matrix)).SameMatrix (Value.matrix m).plain := by
  have hne : ms ≠ [] := by
    rintro rfl
    exact absurd hpieces.total (Nat.ne_of_lt (MatrixKind.accepts_bounds hm.accepts).1)
  rw [combined_matrices hne (hpieces.stackable hm hvalid), hpieces.sideBySide_eq hm.size,
    plain_matrix hm]
  exact ⟨_, hm.wellFormed.retag_plain, rfl, rfl⟩

/-- What was taken apart is put together again: single channels, or colours and alpha. Both are
matrices cut into pieces. -/
theorem rejoiningLaws (hm : m.Valid) : m.RejoiningLaws where
  combined_channels {index} hindex := by
    have hcalls : ((List.range m.channels).map fun i => (matrix m).channel (index i)) =
        ((List.range m.channels).map fun i => m.channelBlock .plain (.single i)).map matrix := by
      rw [List.map_map]
      exact List.map_congr_left fun i hi => channel_matrix hm (hindex i (List.mem_range.mp hi))
    have hpieces := Matrix.pieces_range' (m := m) (Nat.zero_add m.channels)
    rw [hcalls]
    rw [← List.range_eq_range'] at hpieces
    exact hm.combined_pieces hpieces (List.forall_mem_map.mpr fun i _ => hm.channel i)
  combined_rgb {x} hchannels hx := by
    obtain ⟨haccepts, hkind⟩ := withoutAlpha_accepts (hchannels ▸ hm.accepts)
    have hrgb : (m.channelBlock m.kind.withoutAlpha ⟨0, 3⟩).Valid :=
      hm.channelBlock haccepts fun hmask => absurd hmask hkind
    have hnone : m.Pieces 4 [] := hchannels ▸ .nil
    have halpha : m.Pieces 3 [m.channelBlock .plain ⟨3, 4⟩] := .cons .plain (by decide) hnone
    have hpieces := Matrix.Pieces.cons m.kind.withoutAlpha (Nat.zero_le 3) halpha
    rw [rgb_matrix hm hchannels, channel_matrix hm hx]
    exact hm.combined_pieces hpieces
      (List.forall_mem_cons.mpr ⟨hrgb, List.forall_mem_singleton.mpr (hm.channel 3)⟩)

end Matrix.Valid

open Value in
/-- The laws hold of all matrices that can be combined. Channels of the result are counted through,
and matrices that were combined before count as those that they are made of. -/
theorem Stackable.combiningLaws (hne : ms ≠ []) (h : Stackable rows cols ms) :
    CombiningLaws rows cols ms where
  shape := ⟨_, combined_matrices hne h, h.sideBySide_valid hne, rfl, rfl, rfl, rfl⟩
  reached := Matrix.exists_reached
  channel {before after m x y k} hsplit hy hx := by
    subst hsplit
    have hmem : m ∈ before ++ m :: after := List.mem_append_right before List.mem_cons_self
    have hm := h.valid m hmem
    obtain ⟨rfl, rfl⟩ := h.size m hmem
    -- the channel of the matrix in the middle comes behind those of the matrices before it
    have htotal : totalChannels (before ++ m :: after) =
        totalChannels before + (m.channels + totalChannels after) :=
      Matrix.totalChannels_append ..
    have hk := hy.lt
    have hlt : totalChannels before + k < totalChannels (before ++ m :: after) := by omega
    rw [combined_matrices hne h, channel_matrix (h.sideBySide_valid hne) ⟨hx, hlt⟩,
      channel_matrix hm hy, Matrix.channelBlock_sideBySide .plain before after hy.lt]
    exact ⟨_, hm.channel k, rfl, rfl⟩
  nested {args} hgathers := by
    obtain ⟨ns, rfl, hnonempty, hns, hequal⟩ := h.gathered hgathers
    rw [combined_matrices (hnonempty hne) hns, hequal, combined_matrices hne h]
    exact ⟨_, h.sideBySide_valid hne, rfl, rfl⟩

/-- Valid matrices can be taken apart and put together again. Several are combined if their sizes
agree and they do not have too many channels; every channel is found at its place then, and it makes
no difference in how many steps that was done. -/
theorem combining_laws :
    (∀ m : Matrix, m.Valid → m.RejoiningLaws) ∧
    ∀ ms : List Matrix, ms ≠ [] → (∀ m ∈ ms, m.Valid) →
      ((Value.combined (ms.map .matrix)).isError = true ↔
        4 < totalChannels ms ∨ ∃ a ∈ ms, ∃ b ∈ ms, a.sameSize b = false) ∧
      ∀ rows cols, Stackable rows cols ms → CombiningLaws rows cols ms :=
  ⟨fun _ hm => hm.rejoiningLaws, fun _ hne hvalid =>
    ⟨Value.combined_isError_iff hne hvalid, fun _ _ h => h.combiningLaws hne⟩⟩

/-- A pixel of two channels beside one of one channel, at once and in two steps. -/
theorem combining_laws_pixels :
    (Value.combined [Value.combined [.matrix ⟨.gray, 1, 1, 1, #[7]⟩,
      .matrix ⟨.plain, 1, 1, 2, #[8, 9]⟩], .matrix ⟨.gray, 1, 1, 1, #[5]⟩]).SameMatrix
        (Value.combined [.matrix ⟨.gray, 1, 1, 1, #[7]⟩, .matrix ⟨.plain, 1, 1, 2, #[8, 9]⟩,
          .matrix ⟨.gray, 1, 1, 1, #[5]⟩]) ∧
      ((Value.combined [.matrix ⟨.gray, 1, 1, 1, #[7]⟩, .matrix ⟨.plain, 1, 1, 2, #[8, 9]⟩,
        .matrix ⟨.gray, 1, 1, 1, #[5]⟩]).channel 2).SameMatrix
          ((Value.matrix ⟨.plain, 1, 1, 2, #[8, 9]⟩).channel 1) := by
  have hgray (x) : Matrix.Valid ⟨.gray, 1, 1, 1, #[x]⟩ :=
    ⟨Nat.one_pos, Nat.one_pos, rfl, rfl, nofun⟩
  have hplain : Matrix.Valid ⟨.plain, 1, 1, 2, #[8, 9]⟩ := ⟨by decide, by decide, rfl, rfl, nofun⟩
  have hvalid : ∀ m ∈ [⟨.gray, 1, 1, 1, #[7]⟩, ⟨.plain, 1, 1, 2, #[8, 9]⟩,
      ⟨.gray, 1, 1, 1, #[5]⟩], Matrix.Valid m := by
    simp [hgray, hplain]
  have hstackable : Stackable 1 1 [⟨.gray, 1, 1, 1, #[7]⟩, ⟨.plain, 1, 1, 2, #[8, 9]⟩,
      ⟨.gray, 1, 1, 1, #[5]⟩] :=
    ⟨hvalid, by simp, by decide⟩
  have hone : Matrix.HasChannel ⟨.plain, 1, 1, 2, #[8, 9]⟩ 1 1 := ⟨by decide, by decide⟩
  have hlaws := (combining_laws.2 _ (List.cons_ne_nil _ _) hvalid).2 1 1 hstackable
  have hinner : Gathers [.matrix ⟨.gray, 1, 1, 1, #[7]⟩, .matrix ⟨.plain, 1, 1, 2, #[8, 9]⟩]
      [⟨.gray, 1, 1, 1, #[7]⟩, ⟨.plain, 1, 1, 2, #[8, 9]⟩] :=
    .matrix _ (.matrix _ .nil)
  have hnested := Gathers.combined (List.cons_ne_nil _ _) hinner
    (.matrix ⟨.gray, 1, 1, 1, #[5]⟩ .nil)
  have hsplit : ([⟨.gray, 1, 1, 1, #[7]⟩, ⟨.plain, 1, 1, 2, #[8, 9]⟩,
      ⟨.gray, 1, 1, 1, #[5]⟩] : List Matrix) = [⟨.gray, 1, 1, 1, #[7]⟩] ++
        ⟨.plain, 1, 1, 2, #[8, 9]⟩ :: [⟨.gray, 1, 1, 1, #[5]⟩] := rfl
  exact ⟨hlaws.nested hnested, hlaws.channel hsplit hone (by decide)⟩

end PixelCalc
