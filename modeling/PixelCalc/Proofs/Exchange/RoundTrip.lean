import PixelCalc.Exchange.Encoding
import PixelCalc.Proofs.Exchange.Acceptance
import PixelCalc.Proofs.Matrix.RowMajor
import PixelCalc.Proofs.Matrix.Validity

/-!
# Decoding undoes encoding

A matrix may be written in several ways; encoding uses one of them, and decoding understands them
all. What decoding has accepted can be encoded, so it is found again by decoding that.

- `Json.SpellsPixel`, `Json.Spells`: the ways to write a pixel and a matrix.
- `nestedMatrix_spelled`, `flatMatrix_spelled`: the data in rows of pixels and in one array.
- `toValue_spelled`: every spelling of a matrix is decoded to it.
- `spells_ofMatrix`: encoding spells the matrix.
- `toValue_toJson`: the round trip.
-/

namespace PixelCalc

variable {m : Matrix} {j : Json} {js : List Json} {x : Float} {xs : List Float}

/-! ### Spellings -/

/-- The ways to write the numbers of a pixel: an array of its channels, or the number itself if
there is only one. -/
inductive Json.SpellsPixel : List Float → Json → Prop
  | bare {x : Float} {j : Json} (h : j.number? = some x) : SpellsPixel [x] j
  | channels {xs : List Float} {parts : List Json} (h : parts.map number? = xs.map some) :
      SpellsPixel xs (.array parts)

/-- A row of pixels that are written one by one. -/
def Json.pixelRow (m : Matrix) (pixel : Nat → Nat → Json) (row : Nat) : Json :=
  .array ((List.range m.cols).map (pixel row))

/-- Rows of pixels that are written one by one. -/
def Json.pixelRows (m : Matrix) (pixel : Nat → Nat → Json) : List Json :=
  (List.range m.rows).map (pixelRow m pixel)

/-- The ways to write a matrix. Plain numbers may be written as rows of pixels alone, and every matrix
as an object, the name of its kind being in any case. The data of an object are rows of pixels, or
all numbers in one array row by row, the channels of a pixel side by side; then the rows and the
columns are stated, and the channels may be. -/
inductive Json.Spells (m : Matrix) : Json → Prop
  | rows {pixel : Nat → Nat → Json} (hplain : m.kind = .plain)
      (hpixel : ∀ row < m.rows, ∀ col < m.cols, SpellsPixel (m.pixel row col) (pixel row col)) :
      Spells m (.array (pixelRows m pixel))
  | nested {fields : Table Json} {name : String} {pixel : Nat → Nat → Json}
      (hkind : fields.find? "type" = some (.text name))
      (hname : Text.sameLetters m.kind.name name = true)
      (hdata : fields.find? "data" = some (.array (pixelRows m pixel)))
      (hpixel : ∀ row < m.rows, ∀ col < m.cols, SpellsPixel (m.pixel row col) (pixel row col)) :
      Spells m (.object fields)
  | flat {fields : Table Json} {name : String} {data : List Json}
      (hkind : fields.find? "type" = some (.text name))
      (hname : Text.sameLetters m.kind.name name = true)
      (hrows : fields.find? "rows" = some (.integer m.rows))
      (hcols : fields.find? "cols" = some (.integer m.cols))
      (hchannels : fields.find? "channels" = none ∨
        fields.find? "channels" = some (.integer m.channels))
      (hdata : fields.find? "data" = some (.array data))
      (hnumbers : data.map number? = m.data.toList.map some) :
      Spells m (.object fields)

namespace Decoding

/-! ### Numbers -/

theorem number_eq_ok (h : j.number? = some x) : number j = .ok x := by
  unfold number
  rw [h]

/-- Documents with numeric values decode as those numbers, in their order. -/
theorem numbers_eq_ok (h : js.map Json.number? = xs.map some) : numbers js = .ok xs := by
  induction js generalizing xs with
  | nil =>
    cases List.map_eq_nil_iff.mp h.symm
    rfl
  | cons j js ih =>
    obtain ⟨x, xs, rfl, hx, hxs⟩ := List.map_eq_cons_iff.mp h.symm
    have hrest : collect (fun j => do return [← number j]) js = .ok xs := ih hxs.symm
    show collect (fun j => do return [← number j]) (j :: js) = _
    rw [collect, number_eq_ok hx.symm, hrest]
    rfl

/-- The numbers of parts that are given by an index. -/
theorem collect_map {α : Type} {f : Json → Except Failure (List Float)} {part : α → Json}
    {value : α → List Float} {is : List α} (h : ∀ i ∈ is, f (part i) = .ok (value i)) :
    collect f (is.map part) = .ok (is.flatMap value) := by
  induction is with
  | nil => rfl
  | cons i is ih =>
    obtain ⟨hfirst, hrest⟩ := List.forall_mem_cons.mp h
    rw [List.map_cons, collect, hfirst, ih hrest]
    rfl

/-! ### Rows of pixels -/

/-- The first of as many indices as there are rows or columns. -/
theorem range_eq_cons {n : Nat} (h : 0 < n) :
    List.range n = 0 :: (List.range (n - 1)).map Nat.succ := by
  rw [← List.range_succ_eq_map, Nat.sub_add_cancel h]

/-- Both spellings of a pixel give its channels, a bare number as the only one. -/
theorem pixelNumbers_spelled (h : Json.SpellsPixel xs j) : pixelNumbers xs.length j = .ok xs := by
  cases h with
  | @bare x j h =>
    have hnumbers : numbers [j] = .ok [x] := numbers_eq_ok (congrArg (fun n => [n]) h)
    cases j <;> first | exact hnumbers | cases h
  | @channels xs parts h =>
    have hlength : parts.length = xs.length := by
      simpa using congrArg List.length h
    unfold pixelNumbers
    dsimp only
    rw [if_pos hlength]
    exact numbers_eq_ok h

/-- The number of channels is read off the first pixel, and a bare number counts as one. -/
theorem firstChannels_spelled {pixels rows : List Json} (h : Json.SpellsPixel xs j) :
    firstChannels (.array (j :: pixels) :: rows) = xs.length := by
  cases h with
  | @bare x j h => cases j <;> first | rfl | cases h
  | @channels xs parts h =>
    show parts.length = xs.length
    simpa using congrArg List.length h

variable {pixel : Nat → Nat → Json}

/-- A row of spelled pixels gives the entries of the row, pixel after pixel. -/
theorem rowNumbers_spelled {row : Nat}
    (h : ∀ col < m.cols, Json.SpellsPixel (m.pixel row col) (pixel row col)) :
    rowNumbers m.cols m.channels (Json.pixelRow m pixel row) =
      .ok ((List.range m.cols).flatMap (m.pixel row)) := by
  have hlength : ((List.range m.cols).map (pixel row)).length = m.cols := by
    rw [List.length_map, List.length_range]
  unfold rowNumbers Json.pixelRow
  dsimp only
  rw [if_pos hlength]
  refine collect_map fun col hcol => ?_
  rw [← m.length_pixel row col]
  exact pixelNumbers_spelled (h col (List.mem_range.mp hcol))

/-- The first pixel of a matrix has the columns and the channels of all. -/
theorem nestedMatrix_spelled (hvalid : m.Valid) (hsize : m.data.size < UInt64.size / 2)
    (h : ∀ row < m.rows, ∀ col < m.cols, Json.SpellsPixel (m.pixel row col) (pixel row col)) :
    nestedMatrix (Json.pixelRows m pixel) = .ok (m.retag .plain) := by
  have hrows := hvalid.rows_pos
  have hcols := hvalid.cols_pos
  have hfirstCols : firstCols (Json.pixelRows m pixel) = m.cols := by
    rw [Json.pixelRows, range_eq_cons hrows]
    show ((List.range m.cols).map (pixel 0)).length = m.cols
    rw [List.length_map, List.length_range]
  have hfirstChannels : firstChannels (Json.pixelRows m pixel) = m.channels := by
    rw [Json.pixelRows, range_eq_cons hrows, List.map_cons, Json.pixelRow, range_eq_cons hcols,
      List.map_cons, firstChannels_spelled (h 0 hrows 0 hcols), Matrix.length_pixel]
  have hvalues : collect (rowNumbers m.cols m.channels) (Json.pixelRows m pixel) =
      .ok m.data.toList := by
    rw [← Matrix.flatMap_pixel hvalid.size]
    exact collect_map fun row hrow => rowNumbers_spelled (h row (List.mem_range.mp hrow))
  have hlength : (Json.pixelRows m pixel).length = m.rows := by
    rw [Json.pixelRows, List.length_map, List.length_range]
  unfold nestedMatrix
  dsimp only
  rw [hfirstCols, hfirstChannels, hvalues, hlength]
  show described (Matrix.ofValues .plain m.rows m.cols m.channels m.data.toList) = _
  have hplain := Matrix.ofValues_data (m := m.retag .plain) hvalid.wellFormed.retag_plain hsize
  exact congrArg described hplain

/-! ### Objects -/

/-- The case of a name does not matter. -/
theorem ofName?_of_sameLetters {kind : MatrixKind} {name : String}
    (h : Text.sameLetters kind.name name = true) : MatrixKind.ofName? name = some kind := by
  have hlower : kind.name.toLower = name.toLower := by
    simpa [Text.sameLetters] using h
  rw [← MatrixKind.ofName?_name kind]
  unfold MatrixKind.ofName? Text.sameLetters
  rw [hlower]

/-- The kind is found under any spelling of its name that differs in case only. -/
theorem kindField_spelled {fields : Table Json} {kind : MatrixKind} {name : String}
    (hkind : fields.find? "type" = some (.text name))
    (hname : Text.sameLetters kind.name name = true) : kindField fields = .ok kind := by
  unfold kindField
  rw [hkind]
  dsimp only
  rw [ofName?_of_sameLetters hname]

/-- A stated size is read as it is. -/
theorem sizeField_spelled {fields : Table Json} {key : String} {n : Nat}
    (h : fields.find? key = some (.integer n)) : sizeField fields key = .ok (some n) := by
  unfold sizeField
  rw [h]
  simp [Json.natural?]

/-- Channels that are left out follow from the kind or from the length of the data. -/
theorem flatChannels_none (h : m.Valid) :
    flatChannels none m.kind (m.rows * m.cols) m.data.size = m.channels := by
  have haccepts := h.accepts
  unfold MatrixKind.accepts at haccepts
  unfold flatChannels
  cases hfixed : m.kind.fixedChannels? with
  | some channels =>
    rw [hfixed] at haccepts
    exact (beq_iff_eq.mp haccepts).symm
  | none =>
    show m.data.size / (m.rows * m.cols) = m.channels
    rw [h.size]
    exact Nat.mul_div_cancel_left _ (Nat.mul_pos h.rows_pos h.cols_pos)

/-- Flat data in the order of storage give the matrix back, whether the channels are stated or left
out. -/
theorem flatMatrix_spelled {fields : Table Json} {data : List Json} (hvalid : m.Valid)
    (hsize : m.data.size < UInt64.size / 2)
    (hrows : fields.find? "rows" = some (.integer m.rows))
    (hcols : fields.find? "cols" = some (.integer m.cols))
    (hchannels : fields.find? "channels" = none ∨
      fields.find? "channels" = some (.integer m.channels))
    (hnumbers : data.map Json.number? = m.data.toList.map some) :
    flatMatrix fields m.kind data = .ok m := by
  have hpixels := hvalid.pixels_lt hsize
  have hlength : data.length = m.data.size := by
    simpa using congrArg List.length hnumbers
  -- channels that are left out are made up for by the kind or by the number of entries
  have hflat : ∃ stated?, sizeField fields "channels" = .ok stated? ∧
      flatChannels stated? m.kind (m.rows * m.cols) data.length = m.channels := by
    rcases hchannels with hnone | hstated
    · refine ⟨none, ?_, ?_⟩
      · unfold sizeField
        rw [hnone]
      · rw [hlength]
        exact flatChannels_none hvalid
    · exact ⟨some m.channels, sizeField_spelled hstated, rfl⟩
  obtain ⟨stated?, hsizeField, hflatChannels⟩ := hflat
  unfold flatMatrix
  rw [sizeField_spelled hrows, sizeField_spelled hcols]
  show (if UInt64.size ≤ m.rows * m.cols then _ else _) = _
  rw [if_neg (by omega), hsizeField, numbers_eq_ok hnumbers]
  show described (Matrix.ofValues m.kind m.rows m.cols
    (flatChannels stated? m.kind (m.rows * m.cols) data.length) m.data.toList) = _
  rw [hflatChannels, Matrix.ofValues_data hvalid hsize]
  rfl

/-- Data in rows are seen to be nested by their first item, so a matrix with rows is never taken for
flat data. -/
theorem isNested_pixelRows (h : 0 < m.rows) (pixel : Nat → Nat → Json) :
    isNested (Json.pixelRows m pixel) = true := by
  rw [Json.pixelRows, range_eq_cons h]
  rfl

/-- Numbers are no rows. -/
theorem isNested_numbers {data : List Json} (h : data.map Json.number? = xs.map some) :
    isNested data = false := by
  cases data with
  | nil => rfl
  | cons j data =>
    obtain ⟨x, xs, rfl, hx, -⟩ := List.map_eq_cons_iff.mp h.symm
    cases j <;> first | rfl | cases hx

/-- Both forms of an object give the matrix back. -/
theorem objectMatrix_spelled {fields : Table Json} (hvalid : m.Valid)
    (hsize : m.data.size < UInt64.size / 2) (h : Json.Spells m (.object fields)) :
    objectMatrix fields = .ok m := by
  -- nested data are read as a plain matrix first and then take the kind; flat data have it from the
  -- start
  cases h with
  | @nested _ name pixel hkind hname hdata hpixel =>
    unfold objectMatrix
    rw [kindField_spelled hkind hname, hdata]
    show (if isNested (Json.pixelRows m pixel) then _ else _) = _
    rw [if_pos (isNested_pixelRows hvalid.rows_pos pixel), nestedMatrix_spelled hvalid hsize hpixel]
    show described (Matrix.check m) = _
    rw [Matrix.check_of_valid hvalid]
    rfl
  | @flat _ name data hkind hname hrows hcols hchannels hdata hnumbers =>
    unfold objectMatrix
    rw [kindField_spelled hkind hname, hdata]
    show (if isNested data then _ else _) = _
    rw [isNested_numbers hnumbers]
    exact flatMatrix_spelled hvalid hsize hrows hcols hchannels hnumbers

/-- Every spelling of a matrix is decoded to it. -/
theorem toValue_spelled (hvalid : m.Valid) (hsize : m.data.size < UInt64.size / 2)
    (h : j.Spells m) : j.toValue = .ok (.matrix m) := by
  have hobject (fields : Table Json) (h : Json.Spells m (.object fields)) :
      (Json.object fields).toValue = .ok (.matrix m) := by
    show (objectMatrix fields >>= _) = _
    rw [objectMatrix_spelled hvalid hsize h]
    rfl
  cases h with
  | @rows pixel hplain hpixel =>
    show (nestedMatrix (Json.pixelRows m pixel) >>= _) = _
    rw [nestedMatrix_spelled hvalid hsize hpixel, ← hplain]
    rfl
  | nested hkind hname hdata hpixel => exact hobject _ (.nested hkind hname hdata hpixel)
  | flat hkind hname hrows hcols hchannels hdata hnumbers =>
    exact hobject _ (.flat hkind hname hrows hcols hchannels hdata hnumbers)

end Decoding

/-! ### Encoding -/

/-- A finite number survives encoding, as an integer or as a decimal. -/
theorem Json.number?_ofNumber (h : x.isFinite = true) : (Json.ofNumber x).number? = some x := by
  unfold Json.ofNumber
  rw [if_pos h]
  rfl

/-- Every entry is finite if the stored ones are: a place without a stored number counts as zero. -/
theorem Matrix.isFinite_entry (hfinite : ∀ x ∈ m.data, x.isFinite = true)
    (row col channel : Nat) : (m.entry row col channel).isFinite = true := by
  rw [entry, Array.getD_eq_getD_getElem?]
  cases hx : m.data[m.index row col channel]? with
  | none => decide
  | some x => exact hfinite x (Array.mem_of_getElem? hx)

/-- A pixel of one channel is written bare. -/
theorem Json.spellsPixel_ofPixel (hfinite : ∀ x ∈ m.data, x.isFinite = true) (row col : Nat) :
    SpellsPixel (m.pixel row col) (.ofPixel m row col) := by
  have hnumber (channel : Nat) :
      (Json.ofNumber (m.entry row col channel)).number? = some (m.entry row col channel) :=
    number?_ofNumber (Matrix.isFinite_entry hfinite row col channel)
  unfold ofPixel Matrix.pixel
  split
  · rename_i hone
    rw [hone]
    exact .bare (hnumber 0)
  · refine .channels ?_
    rw [List.map_map, List.map_map]
    exact List.map_congr_left fun channel _ => hnumber channel

/-- Encoding writes a matrix in rows of pixels. -/
theorem Json.spells_ofMatrix (hfinite : ∀ x ∈ m.data, x.isFinite = true) :
    (Json.ofMatrix m).Spells m := by
  refine .nested ?_ (Text.sameLetters_refl _) ?_ fun row _ col _ => spellsPixel_ofPixel hfinite row col
  · unfold Table.ofList
    simp only [List.foldl_cons, List.foldl_nil]
    -- the four other fields are entered later
    rw [Table.find?_insert_other (by decide), Table.find?_insert_other (by decide),
      Table.find?_insert_other (by decide), Table.find?_insert_other (by decide),
      Table.find?_insert_self]
  · unfold Table.ofList
    simp only [List.foldl_cons, List.foldl_nil]
    rw [Table.find?_insert_self]
    rfl

/-- Decoding undoes encoding for everything that can be sent. A matrix is covered by
`toValue_spelled`, since encoding is one of its spellings. -/
theorem Value.Exchangeable.toValue_encoded {v : Value} (h : v.Exchangeable) :
    v.toJson.toValue = .ok v := by
  cases h with
  | @number x h =>
    show (Json.ofNumber x).toValue = _
    unfold Json.ofNumber
    rw [if_pos h]
    rfl
  | boolean => rfl
  | nothing => rfl
  | matrix h => exact Decoding.toValue_spelled h.valid h.size_lt (Json.spells_ofMatrix h.finite)

/-- **Decoding undoes encoding.** A value that JSON can hold is decoded from its encoding; a matrix
is decoded from every way to write it, whatever the case of the name of its kind; and what is decoded
from any document is decoded again from its own encoding. -/
theorem toValue_toJson :
    (∀ v : Value, v.Exchangeable → v.toJson.toValue = .ok v) ∧
    (∀ m : Matrix, m.Exchangeable → ∀ j : Json, j.Spells m → j.toValue = .ok (.matrix m)) ∧
    (∀ (j : Json) (v : Value), j.WellFormed → j.toValue = .ok v → v.toJson.toValue = .ok v) := by
  refine ⟨?_, ?_, ?_⟩
  · intro v h
    exact h.toValue_encoded
  · intro m h j hj
    exact Decoding.toValue_spelled h.valid h.size_lt hj
  · intro j v hj hvalue
    have hv := Decoding.exchangeable_of_toValue hj hvalue
    exact hv.toValue_encoded

/-- A mask in flat data, with its channels left out and integers for numbers. -/
theorem toValue_toJson_mask :
    let m : Matrix := ⟨.mask, 1, 2, 1, #[0, 255]⟩
    let j : Json := .object [("cols", .integer 2), ("data", .array [.integer 0, .integer 255]),
      ("rows", .integer 1), ("type", .text "mASK")]
    (m.Exchangeable ∧ j.Spells m ∧ j.WellFormed) ∧
      (Value.matrix m).toJson.toValue = .ok (.matrix m) ∧ j.toValue = .ok (.matrix m) := by
  intro m j
  have hmem {x : Float} (hx : x ∈ m.data) : x = 0 ∨ x = 255 := by
    simpa [m] using hx
  have hmask : ∀ x ∈ m.data, Matrix.isMaskValue x = true := fun x hx => by
    rcases hmem hx with rfl | rfl <;> decide
  have hfinite : ∀ x ∈ m.data, x.isFinite = true := fun x hx => by
    rcases hmem hx with rfl | rfl <;> decide
  have hm : m.Exchangeable :=
    ⟨⟨by decide, by decide, by decide, rfl, fun _ => hmask⟩, by decide, hfinite⟩
  have hspells : j.Spells m :=
    .flat rfl (Text.sameLetters_iff.mpr (by decide)) rfl rfl (.inl rfl) rfl rfl
  have hinteger (n : Int) (hlow : 0 ≤ n) (hhigh : n < 256) : (Json.integer n).WellFormed :=
    .integer (Int.le_trans (by decide) hlow) (Int.le_trans (Int.le_of_lt hhigh) (by decide))
  have hdata : (Json.array [.integer 0, .integer 255]).WellFormed := by
    refine .array (List.forall_mem_cons.mpr ⟨?_, List.forall_mem_singleton.mpr ?_⟩)
    · exact hinteger 0 (by decide) (by decide)
    · exact hinteger 255 (by decide) (by decide)
  have hwell : j.WellFormed := by
    refine .object ?_
    simp only [List.forall_mem_cons]
    exact ⟨hinteger 2 (by decide) (by decide), hdata, hinteger 1 (by decide) (by decide),
      .text "mASK", fun _ h => absurd h List.not_mem_nil⟩
  have hvalue := toValue_toJson.2.1 m hm j hspells
  exact ⟨⟨hm, hspells, hwell⟩, toValue_toJson.2.2 j _ hwell hvalue, hvalue⟩

end PixelCalc
