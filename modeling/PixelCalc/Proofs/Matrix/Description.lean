import Mathlib.Algebra.Group.Nat.Defs
import PixelCalc.Proofs.Matrix.Validity

/-!
# Matrices from a description

A kind, three sizes and a list of numbers describe a matrix if they agree with each other. The sizes
are multiplied as integers: a product that does not fit 64 bits is refused and never taken for the one
that is left of it in a word.

- `ofValues_eq_ok`, `ofValues_data`: what passes the checks, and that a valid matrix does.
- `Consistent`: a description whose parts agree.
- `LaidOut`: a matrix that holds the numbers of a description in their order.
- `ofValues_consistent`: the consistent descriptions are those that give a matrix, and it is laid out
  as they say.
-/

namespace PixelCalc
namespace Matrix

variable {m : Matrix} {kind : MatrixKind} {rows cols channels row col channel : Nat}
  {values : List Float}

/-! ### The checks -/

/-- The matrix of numbers that pass the checks. -/
theorem ofValues_eq_ok (h : ofValues kind rows cols channels values = .ok m) :
    m = ⟨kind, rows, cols, channels, values.toArray⟩ ∧ m.Valid ∧ m.data.size < UInt64.size / 2 := by
  unfold ofValues at h
  split at h
  · cases h
  · split at h
    · cases h
    · rename_i hrange
      have hsize : values.toArray.size = rows * cols * channels := by
        rw [List.size_toArray]
        omega
      obtain ⟨rfl, hvalid⟩ := valid_of_check hsize h
      refine ⟨rfl, hvalid, ?_⟩
      -- an empty size counts as one in the bound, so the bound covers the product
      have hle : rows * cols * channels ≤ max rows 1 * max cols 1 * max channels 1 :=
        Nat.mul_le_mul (Nat.mul_le_mul (Nat.le_max_left ..) (Nat.le_max_left ..))
          (Nat.le_max_left ..)
      show values.toArray.size < UInt64.size / 2
      omega

/-- A matrix that fits 64 bits has no more pixels than numbers. -/
theorem Valid.pixels_lt (h : m.Valid) (hsize : m.data.size < UInt64.size / 2) :
    m.rows * m.cols < UInt64.size := by
  have hle : m.rows * m.cols ≤ m.rows * m.cols * m.channels :=
    Nat.le_mul_of_pos_right _ (MatrixKind.accepts_bounds h.accepts).1
  have hdata := h.size
  omega

/-- A valid matrix that is small enough passes the checks. -/
theorem ofValues_data (h : m.Valid) (hsize : m.data.size < UInt64.size / 2) :
    ofValues m.kind m.rows m.cols m.channels m.data.toList = .ok m := by
  have hrows := h.rows_pos
  have hcols := h.cols_pos
  have hchannels := (MatrixKind.accepts_bounds h.accepts).1
  have hdata := h.size
  have hpixels := h.pixels_lt hsize
  have hword : UInt64.size = 0x10000000000000000 := rfl
  unfold ofValues
  rw [Nat.max_eq_left hrows, Nat.max_eq_left hcols, Nat.max_eq_left hchannels, Array.length_toList,
    if_neg (by omega), if_neg (by omega)]
  exact check_of_valid h

/-! ### Descriptions -/

/-- The parts of a description agree: there is a pixel, the kind accepts the channels, there are as
many numbers as entries, and a mask has the numbers of a mask. -/
structure Consistent (kind : MatrixKind) (rows cols channels : Nat) (values : List Float) :
    Prop where
  rows_pos : 1 ≤ rows
  cols_pos : 1 ≤ cols
  accepts : kind.accepts channels = true
  length : values.length = rows * cols * channels
  mask : kind = .mask → ∀ x ∈ values, x = 0 ∨ x = -0 ∨ x = 255

/-- The matrix has the kind and the sizes of a description and its numbers row by row, the channels
of a pixel side by side. It has no other entries. -/
structure LaidOut (m : Matrix) (kind : MatrixKind) (rows cols channels : Nat)
    (values : List Float) : Prop where
  kind_eq : m.kind = kind
  shape : m.rows = rows ∧ m.cols = cols ∧ m.channels = channels
  inside (row col channel : Nat) (hrow : row < rows) (hcol : col < cols)
    (hchannel : channel < channels) :
    ∃ x, values[(row * cols + col) * channels + channel]? = some x ∧
      m.get? row col channel = some x
  outside (row col channel : Nat) (h : rows ≤ row ∨ cols ≤ col ∨ channels ≤ channel) :
    m.get? row col channel = none

/-- The parts of a description agree if they are those of a valid matrix. -/
theorem consistent_iff_valid :
    Consistent kind rows cols channels values ↔
      (Matrix.mk kind rows cols channels values.toArray).Valid := by
  constructor
  · intro h
    refine ⟨h.rows_pos, h.cols_pos, h.accepts, h.length, fun hmask x hx => ?_⟩
    exact isMaskValue_iff.mpr (h.mask hmask x (List.mem_toArray.mp hx))
  · intro h
    refine ⟨h.rows_pos, h.cols_pos, h.accepts, h.size, fun hmask x hx => ?_⟩
    exact isMaskValue_iff.mp (h.mask hmask x (List.mem_toArray.mpr hx))

/-- A matrix is laid out as the description that it has its parts from. -/
theorem laidOut_mk (h : values.length = rows * cols * channels) :
    LaidOut ⟨kind, rows, cols, channels, values.toArray⟩ kind rows cols channels values where
  kind_eq := rfl
  shape := ⟨rfl, rfl, rfl⟩
  inside row col channel hrow hcol hchannel := by
    have hindex : (row * cols + col) * channels + channel < values.length :=
      h ▸ index_lt hrow hcol hchannel
    refine ⟨values[(row * cols + col) * channels + channel], List.getElem?_eq_getElem hindex, ?_⟩
    rw [get?, if_pos ⟨hrow, hcol, hchannel⟩, entry, index]
    simp [hindex]
  outside row col channel h := by
    rw [get?, if_neg]
    rintro ⟨hrow, hcol, hchannel⟩
    dsimp only at hrow hcol hchannel
    omega

/-- **A matrix is made from the consistent descriptions and from no others.** It holds their numbers
row by row. Sizes whose product agrees with the count of the numbers only modulo `2^64` are too
large. -/
theorem ofValues_consistent (kind : MatrixKind) (rows cols channels : Nat) (values : List Float)
    (h : values.length < 2 ^ 63) :
    ((∃ m, ofValues kind rows cols channels values = .ok m) ↔
      Consistent kind rows cols channels values) ∧
    (∀ m, ofValues kind rows cols channels values = .ok m →
      LaidOut m kind rows cols channels values) ∧
    (rows * cols * channels ≠ values.length →
      rows * cols * channels % 2 ^ 64 = values.length →
      ofValues kind rows cols channels values = .error (.tooLarge rows cols channels)) := by
  have hword : UInt64.size = 2 ^ 64 := rfl
  refine ⟨⟨?_, fun hconsistent => ?_⟩, ?_, fun hne hmod => ?_⟩
  · rintro ⟨m, hm⟩
    obtain ⟨rfl, hvalid, -⟩ := ofValues_eq_ok hm
    exact consistent_iff_valid.mpr hvalid
  · have hvalid := consistent_iff_valid.mp hconsistent
    exact ⟨_, ofValues_data hvalid (by show values.length < _; omega)⟩
  · rintro m hm
    obtain ⟨rfl, hvalid, -⟩ := ofValues_eq_ok hm
    exact laidOut_mk hvalid.size
  · -- the word would be the product itself if the product fitted it
    have hlarge : 2 ^ 64 ≤ rows * cols * channels := by omega
    exact if_pos (.inr hlarge)

/-- A mask of two pixels is made; sizes that a word multiplies to no number at all are too large. -/
theorem ofValues_consistent_mask :
    (∃ m, ofValues .mask 1 2 1 [255, 0] = .ok m ∧ m.get? 0 1 0 = some 0) ∧
      ofValues .plain (2 ^ 32) (2 ^ 32) 4 [] = .error (.tooLarge (2 ^ 32) (2 ^ 32) 4) := by
  obtain ⟨hmade, hlaid, -⟩ := ofValues_consistent .mask 1 2 1 [255, 0] (by decide)
  obtain ⟨-, -, hlarge⟩ := ofValues_consistent .plain (2 ^ 32) (2 ^ 32) 4 [] (by decide)
  have hconsistent : Consistent .mask 1 2 1 [255, 0] := by
    refine ⟨by decide, by decide, rfl, rfl, fun _ x hx => ?_⟩
    rcases List.mem_cons.mp hx with rfl | hx
    · exact .inr (.inr rfl)
    · cases List.mem_singleton.mp hx
      exact .inl rfl
  obtain ⟨m, hm⟩ := hmade.mpr hconsistent
  obtain ⟨x, hx, hget⟩ := (hlaid m hm).inside 0 1 0 (by decide) (by decide) (by decide)
  cases hx
  exact ⟨⟨m, hm, hget⟩, hlarge (by decide) (by decide)⟩

end Matrix
end PixelCalc
