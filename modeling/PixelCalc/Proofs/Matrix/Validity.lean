import PixelCalc.Matrix.Basic
import PixelCalc.Proofs.Binary64.Equality

/-!
# Constructions keep matrices valid

Some constructions check what they build, others take it for granted: they are valid for reasons of
their own, which are collected here.

- `isMaskValue_iff`: the numbers that a mask may hold are the two zeros and 255.
- `WellFormed`: what a matrix needs to be valid as plain numbers; `WellFormed.generic` says that it
  is enough.
- `valid_tabulate`: a tabulated matrix is valid if its shape and its entries are.
- `Valid.map`, `Valid.zipWith`, `Valid.maskBy`, `Valid.maskZip`, `Valid.block`,
  `Valid.replaceChannels`, `Valid.stack`: the constructions one by one, each with the assertions
  that it meets.
-/

namespace PixelCalc
namespace Matrix

variable {m a b : Matrix} {kind : MatrixKind}

/-! ### Mask values -/

/-- The numbers that a mask may hold, of which one is zero with a sign. -/
theorem isMaskValue_iff {x : Float} : isMaskValue x = true ↔ x = 0 ∨ x = -0 ∨ x = 255 := by
  constructor
  · intro h
    rcases Bool.or_eq_true_iff.mp h with h | h
    · rcases Binary64.eq_of_beq h with rfl | ⟨rfl | rfl, -⟩
      · exact .inl rfl
      · exact .inl rfl
      · exact .inr (.inl rfl)
    · rcases Binary64.eq_of_beq h with rfl | ⟨-, h | h⟩
      · exact .inr (.inr rfl)
      · exact absurd h (by decide)
      · exact absurd h (by decide)
  · rintro (rfl | rfl | rfl) <;> decide

/-- Rounding to a byte leaves the mask values as they are. -/
theorem toByte_of_isMaskValue {x : Float} (h : isMaskValue x = true) : Binary64.toByte x = x := by
  rcases isMaskValue_iff.mp h with rfl | rfl | rfl <;> decide

/-- An entry of a mask is a mask value, also where there is no entry. -/
theorem Valid.isMaskValue_entry (h : m.Valid) (hkind : m.kind = .mask) (row col channel : Nat) :
    isMaskValue (m.entry row col channel) = true := by
  rw [entry, Array.getD_eq_getD_getElem?]
  cases hx : m.data[m.index row col channel]? with
  | none => decide
  | some x => exact h.mask hkind x (Array.mem_of_getElem? hx)

/-! ### Shapes -/

/-- Shapes in words: the same rows, columns and channels. -/
theorem sameShape_iff :
    a.sameShape b = true ↔ a.rows = b.rows ∧ a.cols = b.cols ∧ a.channels = b.channels := by
  simp [sameShape, and_assoc]

theorem sameShape_trans {c : Matrix} (hab : a.sameShape b = true) (hbc : b.sameShape c = true) :
    a.sameShape c = true := by
  obtain ⟨hrows, hcols, hchannels⟩ := sameShape_iff.mp hab
  obtain ⟨hrows', hcols', hchannels'⟩ := sameShape_iff.mp hbc
  exact sameShape_iff.mpr
    ⟨hrows.trans hrows', hcols.trans hcols', hchannels.trans hchannels'⟩

/-- A matrix that is valid as plain numbers. -/
structure WellFormed (m : Matrix) : Prop where
  rows_pos : 0 < m.rows
  cols_pos : 0 < m.cols
  channels : MatrixKind.plain.accepts m.channels = true
  size : m.data.size = m.rows * m.cols * m.channels

theorem plain_accepts_iff {channels : Nat} :
    MatrixKind.plain.accepts channels = true ↔ 1 ≤ channels ∧ channels ≤ 4 := by
  simp [MatrixKind.accepts, MatrixKind.fixedChannels?]

/-- What any kind accepts, plain numbers accept. -/
theorem Valid.wellFormed (h : m.Valid) : m.WellFormed :=
  ⟨h.rows_pos, h.cols_pos, plain_accepts_iff.mpr (MatrixKind.accepts_bounds h.accepts), h.size⟩

/-- What is well-formed is valid as plain numbers, whatever its kind was. -/
theorem WellFormed.retag_plain (h : m.WellFormed) : (m.retag .plain).Valid :=
  ⟨h.rows_pos, h.cols_pos, h.channels, h.size, nofun⟩

/-- The assertion of a construction without a check holds of every well-formed matrix. -/
theorem WellFormed.generic (h : m.WellFormed) : m.generic = .ok (m.retag .plain) :=
  if_pos h.channels

/-- A tabulated matrix is valid if its shape and its entries are. -/
theorem valid_tabulate {rows cols channels : Nat} {f : Nat → Nat → Nat → Float}
    (hrows : 0 < rows) (hcols : 0 < cols) (haccepts : kind.accepts channels = true)
    (hmask : kind = .mask → ∀ row col channel, isMaskValue (f row col channel) = true) :
    (tabulate kind rows cols channels f).Valid := by
  refine ⟨hrows, hcols, haccepts, size_tabulate .., fun hkind x hx => ?_⟩
  obtain ⟨i, hi, rfl⟩ := Array.mem_iff_getElem.mp hx
  simp only [tabulate, Array.getElem_ofFn]
  exact hmask hkind _ _ _

/-! ### Numbers at every entry -/

theorem WellFormed.mapEntries (h : m.WellFormed) (f : Float → Float) :
    (m.mapEntries f).WellFormed :=
  ⟨h.rows_pos, h.cols_pos, h.channels, Array.size_map.trans h.size⟩

/-- A map of a valid matrix is built without a broken assertion, and is valid. -/
theorem Valid.map (h : m.Valid) (f : Float → Float) : ∃ out, m.map f = .ok out ∧ out.Valid :=
  have hwf := h.wellFormed.mapEntries f
  ⟨_, hwf.generic, hwf.retag_plain⟩

/-- Rounding to bytes keeps every kind that accepts the channels; a mask it does not even change. -/
theorem Valid.mapEntries_toByte (h : m.Valid) (haccepts : kind.accepts m.channels = true)
    (hkind : kind = .mask → m.kind = .mask) :
    ((m.mapEntries Binary64.toByte).retag kind).Valid := by
  have hwf := h.wellFormed.mapEntries Binary64.toByte
  refine ⟨hwf.rows_pos, hwf.cols_pos, haccepts, hwf.size, fun heq y hy => ?_⟩
  obtain ⟨x, hx, rfl⟩ := Array.mem_map.mp hy
  have hvalue := h.mask (hkind heq) x hx
  rw [toByte_of_isMaskValue hvalue]
  exact hvalue

/-- Two matrices of one shape meet both assertions; the result has their shape. -/
theorem Valid.zipWith (ha : a.Valid) (hb : b.Valid) (hshape : a.sameShape b = true)
    (f : Float → Float → Float) :
    ∃ out, a.zipWith f b = .ok out ∧ out.Valid ∧ out.sameShape a = true := by
  obtain ⟨hrows, hcols, hchannels⟩ := sameShape_iff.mp hshape
  have hwf : WellFormed { a with data := Array.zipWith f a.data b.data } := by
    refine ⟨ha.rows_pos, ha.cols_pos, ha.wellFormed.channels, ?_⟩
    rw [Array.size_zipWith, ha.size, hb.size, hrows, hcols, hchannels, Nat.min_self]
  refine ⟨_, ?_, hwf.retag_plain, sameShape_iff.mpr ⟨rfl, rfl, rfl⟩⟩
  rw [Matrix.zipWith, if_pos hshape]
  exact hwf.generic

/-- A mask has one channel per pixel and only mask values, whatever the test. -/
theorem Valid.maskBy (h : m.Valid) (p : Nat → Nat → Nat → Bool) : (m.maskBy p).Valid := by
  refine valid_tabulate h.rows_pos h.cols_pos rfl fun _ row col _ => ?_
  split <;> decide

theorem Valid.maskZip (ha : a.Valid) (hshape : a.sameShape b = true) (p : Float → Float → Bool) :
    ∃ out, a.maskZip p b = .ok out ∧ out.Valid :=
  ⟨_, if_pos hshape, ha.maskBy _⟩

/-! ### Parts -/

/-- A part that is not empty is valid as what it is a part of, if that kind accepts its channels, or
as anything but a mask. -/
theorem Valid.block (h : m.Valid) {rows cols channels : Span} (hrows : 0 < rows.length)
    (hcols : 0 < cols.length) (haccepts : kind.accepts channels.length = true)
    (hkind : kind = .mask → m.kind = .mask) : (m.block kind rows cols channels).Valid :=
  valid_tabulate hrows hcols haccepts fun heq _ _ _ => h.isMaskValue_entry (hkind heq) ..

/-- A part of the channels is valid under a kind that accepts so many, given that it is a mask only
if the whole is one. -/
theorem Valid.channelBlock (h : m.Valid) {channels : Span}
    (haccepts : kind.accepts channels.length = true) (hkind : kind = .mask → m.kind = .mask) :
    (m.channelBlock kind channels).Valid :=
  h.block h.rows_pos h.cols_pos haccepts hkind

/-- Channels that are put in do not change the sizes. They may hold any numbers, so the kind must
not be that of a mask. -/
theorem Valid.replaceChannels (h : m.Valid) {first : Nat} {r : Matrix}
    (haccepts : kind.accepts m.channels = true) (hkind : kind ≠ .mask) :
    (m.replaceChannels kind first r).Valid :=
  valid_tabulate h.rows_pos h.cols_pos haccepts fun heq => absurd heq hkind

/-- Matrices side by side are well-formed as long as there are at most four channels. -/
theorem WellFormed.beside (h : a.WellFormed) (hchannels : a.channels + b.channels ≤ 4) :
    (a.beside b).WellFormed :=
  ⟨h.rows_pos, h.cols_pos,
    plain_accepts_iff.mpr ⟨Nat.le_add_right_of_le (plain_accepts_iff.mp h.channels).1, hchannels⟩,
    size_tabulate ..⟩

end Matrix
end PixelCalc
