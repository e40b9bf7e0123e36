import PixelCalc.Proofs.Exchange.RoundTrip

/-!
# Rows of pixels

Rows of pixels are a plain matrix exactly if they are a grid: every row is an array with as many pixels
as the first one has, and every pixel has as many numbers as the first pixel has. A number that stands
alone is a pixel of one channel.

- `Json.parts`, `IsGrid`: the channels of a pixel, and the rows that are a grid.
- `isGrid_of_nestedMatrix`: what decoding accepts is a grid.
- `gridMatrix`: the matrix of a grid; `IsGrid.number?_part` says where the numbers of the pixels are
  in it.
- `IsGrid.nestedMatrix_eq`: a grid is decoded to its matrix.
- `announced`: how many numbers there are if all rows are like the first one.
- `toValue_rows`: both directions.
-/

namespace PixelCalc

/-- The channels of a pixel: the items of an array. What is no array is a channel itself. -/
def Json.parts : Json → List Json
  | .array parts => parts
  | j => [j]

namespace Decoding

variable {rows pixels js : List Json} {j row pixel part : Json} {m : Matrix}
  {cols channels i k col : Nat} {xs : List Float}

/-- The pixel has so many channels, which are numbers. -/
structure IsPixel (channels : Nat) (pixel : Json) : Prop where
  length : pixel.parts.length = channels
  numbers : ∀ part ∈ pixel.parts, ∃ x, part.number? = some x

/-- The row is an array of so many pixels, all with so many channels. -/
def IsPixelRow (cols channels : Nat) (row : Json) : Prop :=
  ∃ pixels, row = .array pixels ∧ pixels.length = cols ∧ ∀ pixel ∈ pixels, IsPixel channels pixel

/-- The rows are not empty, and they are alike in the number of their pixels and of the channels of
these. A pixel has 1 to 4 channels. -/
structure IsGrid (rows : List Json) (cols channels : Nat) : Prop where
  rows_ne_nil : rows ≠ []
  cols_pos : 0 < cols
  channels_pos : 1 ≤ channels
  channels_le : channels ≤ 4
  rows : ∀ row ∈ rows, IsPixelRow cols channels row

/-! ### What is accepted -/

/-- What is collected was found in every part. -/
theorem exists_of_collect {f : Json → Except Failure (List Float)} (h : collect f js = .ok xs) :
    ∀ j ∈ js, ∃ ys, f j = .ok ys := by
  induction js generalizing xs with
  | nil => nofun
  | cons j js ih =>
    obtain ⟨first, hfirst, h⟩ := bind_eq_ok h
    obtain ⟨rest, hrest, -⟩ := bind_eq_ok h
    exact List.forall_mem_cons.mpr ⟨⟨first, hfirst⟩, ih hrest⟩

/-- If a list of documents decodes as numbers, then each of them is a number. -/
theorem exists_number_of_numbers (h : numbers js = .ok xs) :
    ∀ j ∈ js, ∃ x, j.number? = some x := by
  intro j hj
  obtain ⟨ys, hys⟩ := exists_of_collect h j hj
  obtain ⟨x, hx, -⟩ := bind_eq_ok hys
  unfold number at hx
  split at hx
  · rename_i x hnumber
    exact ⟨x, hnumber⟩
  · cases hx

/-- What is accepted as a pixel is one: an array of as many numbers as there are channels, or a bare
number where there is one channel. -/
theorem isPixel_of_pixelNumbers (h : pixelNumbers channels pixel = .ok xs) :
    IsPixel channels pixel := by
  unfold pixelNumbers at h
  split at h
  · split at h
    · rename_i parts hlength
      exact ⟨hlength, exists_number_of_numbers h⟩
    · cases h
  · rename_i harray
    have hparts : pixel.parts = [pixel] := by
      unfold Json.parts
      split
      · exact absurd rfl (harray _)
      · rfl
    split at h
    · rename_i hchannels
      refine ⟨?_, ?_⟩ <;> rw [hparts]
      · exact hchannels.symm
      · exact exists_number_of_numbers h
    · cases h

/-- What is accepted as a row is an array of as many pixels as there are columns. -/
theorem isPixelRow_of_rowNumbers (h : rowNumbers cols channels row = .ok xs) :
    IsPixelRow cols channels row := by
  unfold rowNumbers at h
  split at h
  · split at h
    · rename_i pixels hlength
      refine ⟨pixels, rfl, hlength, fun pixel hpixel => ?_⟩
      obtain ⟨ys, hys⟩ := exists_of_collect h pixel hpixel
      exact isPixel_of_pixelNumbers hys
    · cases h
  · cases h

/-- Rows that are decoded are a grid, which the matrix has the size of. -/
theorem isGrid_of_nestedMatrix (h : nestedMatrix rows = .ok m) :
    m.Valid ∧ IsGrid rows m.cols m.channels ∧ m.rows = rows.length := by
  obtain ⟨values, hvalues, h⟩ := bind_eq_ok h
  obtain ⟨rfl, hvalid, -⟩ := Matrix.ofValues_eq_ok (described_eq_ok h)
  obtain ⟨hpos, hle⟩ := MatrixKind.accepts_bounds hvalid.accepts
  refine ⟨hvalid, ⟨List.ne_nil_of_length_pos hvalid.rows_pos, hvalid.cols_pos, hpos, hle, ?_⟩, rfl⟩
  intro row hrow
  obtain ⟨ys, hys⟩ := exists_of_collect hvalues row hrow
  exact isPixelRow_of_rowNumbers hys

/-! ### The matrix of a grid -/

/-- The pixel in a row and a column. -/
def gridPixel (rows : List Json) (row col : Nat) : Json :=
  (((rows[row]?).bind Json.items?).bind fun pixels => pixels[col]?).getD .null

/-- The number in a row, a column and a channel. -/
def gridEntry (rows : List Json) (row col channel : Nat) : Float :=
  (((gridPixel rows row col).parts[channel]?).bind Json.number?).getD 0

/-- The plain matrix of rows of pixels. -/
def gridMatrix (rows : List Json) (cols channels : Nat) : Matrix :=
  .tabulate .plain rows.length cols channels (gridEntry rows)

theorem gridPixel_eq (hrow : rows[i]? = some (.array pixels)) (hpixel : pixels[col]? = some pixel) :
    gridPixel rows i col = pixel := by
  rw [gridPixel, hrow, Option.bind_some, Json.items?, Option.bind_some, hpixel, Option.getD_some]

namespace IsGrid

/-- Every row of a grid is an array of pixels of the common length. -/
theorem exists_row (h : IsGrid rows cols channels) (hi : i < rows.length) :
    ∃ pixels, rows[i]? = some (.array pixels) ∧ pixels.length = cols ∧
      ∀ pixel ∈ pixels, IsPixel channels pixel := by
  obtain ⟨pixels, hrow, hpixels⟩ := h.rows rows[i] (List.getElem_mem hi)
  exact ⟨pixels, by rw [List.getElem?_eq_getElem hi, hrow], hpixels⟩

/-- Every place of a grid holds a pixel. -/
theorem isPixel (h : IsGrid rows cols channels) (hi : i < rows.length) (hcol : col < cols) :
    IsPixel channels (gridPixel rows i col) := by
  obtain ⟨pixels, hrow, hlength, hpixels⟩ := h.exists_row hi
  have hlt : col < pixels.length := by rwa [hlength]
  rw [gridPixel_eq hrow (List.getElem?_eq_getElem hlt)]
  exact hpixels _ (List.getElem_mem hlt)

/-- The matrix of a grid is valid: its sizes are positive, and its kind is the plain one that
accepts any number of channels. -/
theorem valid (h : IsGrid rows cols channels) : (gridMatrix rows cols channels).Valid :=
  Matrix.valid_tabulate (List.length_pos_iff.mpr h.rows_ne_nil) h.cols_pos
    (Matrix.plain_accepts_iff.mpr ⟨h.channels_pos, h.channels_le⟩) nofun

/-- A number of a pixel is the entry of the matrix in its place. -/
theorem number?_part (h : IsGrid rows cols channels) (hrow : rows[i]? = some (.array pixels))
    (hpixel : pixels[col]? = some pixel) (hpart : pixel.parts[k]? = some part) :
    part.number? = some ((gridMatrix rows cols channels).entry i col k) := by
  obtain ⟨hi, -⟩ := List.getElem?_eq_some_iff.mp hrow
  obtain ⟨pixels', hrow', hlength, hpixels⟩ := h.exists_row hi
  cases hrow.symm.trans hrow'
  obtain ⟨hcol, rfl⟩ := List.getElem?_eq_some_iff.mp hpixel
  have hchannels := hpixels _ (List.getElem_mem hcol)
  obtain ⟨hk, rfl⟩ := List.getElem?_eq_some_iff.mp hpart
  obtain ⟨x, hx⟩ := hchannels.numbers _ (List.getElem_mem hk)
  have hentry : gridEntry rows i col k = x := by
    rw [gridEntry, gridPixel_eq hrow hpixel, hpart, Option.bind_some, hx, Option.getD_some]
  rw [gridMatrix, Matrix.entry_tabulate hi (hlength ▸ hcol) (hchannels.length ▸ hk), hentry, hx]

/-- The rows are written pixel by pixel. -/
theorem pixelRows_eq (h : IsGrid rows cols channels) :
    Json.pixelRows (gridMatrix rows cols channels) (gridPixel rows) = rows := by
  refine List.ext_getElem (by simp [Json.pixelRows, gridMatrix, Matrix.tabulate]) fun i hi hi' => ?_
  obtain ⟨pixels, hrow, hlength, -⟩ := h.exists_row hi'
  have hpixels : (List.range cols).map (gridPixel rows i) = pixels := by
    refine List.ext_getElem (by simp [hlength]) fun col hcol hcol' => ?_
    rw [List.getElem_map, List.getElem_range, gridPixel_eq hrow (List.getElem?_eq_getElem hcol')]
  rw [List.getElem?_eq_getElem hi', Option.some.injEq] at hrow
  simp only [Json.pixelRows, List.getElem_map, List.getElem_range]
  rw [hrow]
  exact congrArg Json.array hpixels

/-- The numbers of a pixel are spelled by its channels. -/
theorem spellsPixel_of_parts (h : pixel.parts.map Json.number? = xs.map some) :
    Json.SpellsPixel xs pixel := by
  have hbare (h : [pixel].map Json.number? = xs.map some) : Json.SpellsPixel xs pixel := by
    obtain ⟨x, xs, rfl, hx, hxs⟩ := List.map_eq_cons_iff.mp h.symm
    cases List.map_eq_nil_iff.mp hxs
    exact .bare hx.symm
  cases pixel with
  | array parts => exact .channels h
  | _ => exact hbare h

/-- A place of a grid spells the pixel that its matrix has there, so decoding falls under
`nestedMatrix_spelled`. -/
theorem spellsPixel (h : IsGrid rows cols channels) (hi : i < rows.length) (hcol : col < cols) :
    Json.SpellsPixel ((gridMatrix rows cols channels).pixel i col) (gridPixel rows i col) := by
  obtain ⟨pixels, hrow, hlength, -⟩ := h.exists_row hi
  have hpixel : pixels[col]? = some (gridPixel rows i col) := by
    rw [List.getElem?_eq_getElem (hlength ▸ hcol),
      gridPixel_eq hrow (List.getElem?_eq_getElem (hlength ▸ hcol))]
  have hchannels := (h.isPixel hi hcol).length
  refine spellsPixel_of_parts (List.ext_getElem ?_ fun k hk hk' => ?_)
  · rw [List.length_map, List.length_map, Matrix.length_pixel, hchannels]
    rfl
  · rw [List.length_map] at hk
    rw [List.getElem_map, List.getElem_map, h.number?_part hrow hpixel (List.getElem?_eq_getElem hk)]
    simp [Matrix.pixel]

/-- A grid is decoded to its matrix, if that is not too large for an array. -/
theorem nestedMatrix_eq (h : IsGrid rows cols channels)
    (hsize : rows.length * cols * channels < UInt64.size / 2) :
    nestedMatrix rows = .ok (gridMatrix rows cols channels) := by
  have hdata : (gridMatrix rows cols channels).data.size < UInt64.size / 2 := by
    rwa [gridMatrix, Matrix.size_tabulate]
  have hrows := nestedMatrix_spelled h.valid hdata fun row hrow col hcol => h.spellsPixel hrow hcol
  rwa [h.pixelRows_eq] at hrows

end IsGrid

/-! ### Rows alone -/

/-- How many numbers there are if all rows are like the first one. Room is made for so many before the
rows are read. -/
def announced (rows : List Json) : Nat :=
  rows.length * firstCols rows * firstChannels rows

/-- The number of entries announced by the first row is the number in all rows. -/
theorem IsGrid.announced_eq (h : IsGrid rows cols channels) :
    announced rows = rows.length * cols * channels := by
  obtain ⟨row, rest, rfl⟩ := List.exists_cons_of_ne_nil h.rows_ne_nil
  obtain ⟨pixels, rfl, hlength, hpixels⟩ := h.rows row List.mem_cons_self
  have hcols : firstCols (.array pixels :: rest) = cols := hlength
  obtain ⟨pixel, pixels, rfl⟩ := List.exists_cons_of_length_pos (hlength ▸ h.cols_pos)
  have hchannels : firstChannels (.array (pixel :: pixels) :: rest) = pixel.parts.length := by
    cases pixel <;> rfl
  rw [announced, hcols, hchannels, (hpixels pixel List.mem_cons_self).length]

/-- **An array is accepted exactly if it is a grid of pixels**, where there is room for as many numbers
as its first row announces. It is a plain matrix of so many rows, columns and channels, and each number
of a pixel is the entry in its place. -/
theorem toValue_rows {rows : List Json} (hroom : announced rows < UInt64.size / 2) :
    ((∃ v, (Json.array rows).toValue = .ok v) ↔ ∃ cols channels, IsGrid rows cols channels) ∧
    ∀ cols channels, IsGrid rows cols channels →
      ∃ m, (Json.array rows).toValue = .ok (.matrix m) ∧ m.Valid ∧ m.kind = .plain ∧
        m.rows = rows.length ∧ m.cols = cols ∧ m.channels = channels ∧
        ∀ i j k pixels pixel part, rows[i]? = some (.array pixels) → pixels[j]? = some pixel →
          pixel.parts[k]? = some part → part.number? = some (m.entry i j k) := by
  have haccepted {cols channels : Nat} (h : IsGrid rows cols channels) :
      (Json.array rows).toValue = .ok (.matrix (gridMatrix rows cols channels)) := by
    have hmatrix := h.nestedMatrix_eq (h.announced_eq ▸ hroom)
    show (nestedMatrix rows >>= _) = _
    rw [hmatrix]
    rfl
  refine ⟨⟨?_, ?_⟩, ?_⟩
  -- a value can only come from a matrix, and the rows that give one are a grid of its sizes
  · rintro ⟨v, hv⟩
    obtain ⟨m, hm, -⟩ := bind_eq_ok hv
    exact ⟨m.cols, m.channels, (isGrid_of_nestedMatrix hm).2.1⟩
  · rintro ⟨cols, channels, h⟩
    exact ⟨_, haccepted h⟩
  · intro cols channels h
    refine ⟨_, haccepted h, h.valid, rfl, rfl, rfl, rfl, ?_⟩
    intro i j k pixels pixel part hrow hpixel hpart
    exact h.number?_part hrow hpixel hpart

/-- Two rows in which bare numbers stand beside pixels of one channel. -/
theorem toValue_rows_mixed :
    let rows : List Json :=
      [.array [.integer 1, .array [.integer 2]], .array [.array [.integer 3], .real 4]]
    (announced rows < UInt64.size / 2 ∧ IsGrid rows 2 1) ∧
      ∃ m, (Json.array rows).toValue = .ok (.matrix m) ∧ m.rows = 2 ∧ m.entry 1 1 0 = 4 := by
  intro rows
  have hroom : announced rows < UInt64.size / 2 := by decide
  have hinteger (n : Int) : ∃ x, (Json.integer n).number? = some x := ⟨_, rfl⟩
  have hreal (x : Float) : ∃ y, (Json.real x).number? = some y := ⟨_, rfl⟩
  have hgrid : IsGrid rows 2 1 := by
    refine ⟨List.cons_ne_nil _ _, by decide, by decide, by decide, ?_⟩
    simp only [rows, List.forall_mem_cons]
    refine ⟨⟨_, rfl, rfl, ?_⟩, ⟨_, rfl, rfl, ?_⟩, fun _ h => absurd h List.not_mem_nil⟩
    · simp only [List.forall_mem_cons]
      exact ⟨⟨rfl, List.forall_mem_singleton.mpr (hinteger 1)⟩,
        ⟨rfl, List.forall_mem_singleton.mpr (hinteger 2)⟩, fun _ h => absurd h List.not_mem_nil⟩
    · simp only [List.forall_mem_cons]
      exact ⟨⟨rfl, List.forall_mem_singleton.mpr (hinteger 3)⟩,
        ⟨rfl, List.forall_mem_singleton.mpr (hreal 4)⟩, fun _ h => absurd h List.not_mem_nil⟩
  obtain ⟨m, hm, -, -, hrows, -, -, hentry⟩ := (toValue_rows hroom).2 2 1 hgrid
  have hlast : (Json.real 4).number? = some (m.entry 1 1 0) := hentry 1 1 0 _ _ _ rfl rfl rfl
  exact ⟨⟨hroom, hgrid⟩, m, hm, hrows, (Option.some.inj hlast).symm⟩

end Decoding
end PixelCalc
