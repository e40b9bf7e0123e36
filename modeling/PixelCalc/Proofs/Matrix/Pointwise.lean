import PixelCalc.Proofs.Matrix.Validity

/-!
# Matrices computed entry by entry

What `map` and `zipWith` put at a position depends on what their operands have there, and on nothing
else.

- `IsLift`: the plain matrix of a given shape with given entries; `IsLift.unique` says that there is
  one only.
- `Valid.isLift_map`, `Valid.isLift_zipWith`: the entries of the two constructions.
- `get?_maskBy`: the pixels of a mask.
-/

namespace PixelCalc
namespace Matrix

variable {m a b out : Matrix} {row col channel : Nat}

theorem sameShape_refl (m : Matrix) : m.sameShape m = true :=
  sameShape_iff.mpr ⟨rfl, rfl, rfl⟩

theorem sameShape_symm (h : a.sameShape b = true) : b.sameShape a = true := by
  obtain ⟨hrows, hcols, hchannels⟩ := sameShape_iff.mp h
  exact sameShape_iff.mpr ⟨hrows.symm, hcols.symm, hchannels.symm⟩

theorem index_lt_size (h : m.data.size = m.rows * m.cols * m.channels) (hrow : row < m.rows)
    (hcol : col < m.cols) (hchannel : channel < m.channels) : m.index row col channel < m.data.size :=
  Nat.lt_of_lt_of_eq (index_lt hrow hcol hchannel) h.symm

/-- Where the data reach, an entry is what they hold. -/
theorem entry_eq_getElem (h : m.index row col channel < m.data.size) :
    m.entry row col channel = m.data[m.index row col channel] := by
  rw [entry, Array.getD_eq_getD_getElem?, Array.getElem?_eq_getElem h, Option.getD_some]

/-! ### Entries of constructions -/

/-- The plain matrix of the shape of `m` whose entries are the values of `f`. -/
structure IsLift (out m : Matrix) (f : Nat → Nat → Nat → Float) : Prop where
  valid : out.Valid
  plain : out.kind = .plain
  shape : out.sameShape m = true
  entry : ∀ row col channel, row < m.rows → col < m.cols → channel < m.channels →
    out.entry row col channel = f row col channel

namespace IsLift

variable {f g : Nat → Nat → Nat → Float}

/-- The shape and the values count, not where they are from. -/
theorem congr (h : out.IsLift a f) (hshape : a.sameShape b = true)
    (hfg : ∀ row col channel, row < b.rows → col < b.cols → channel < b.channels →
      f row col channel = g row col channel) : out.IsLift b g := by
  obtain ⟨hrows, hcols, hchannels⟩ := sameShape_iff.mp hshape
  refine ⟨h.valid, h.plain, sameShape_trans h.shape hshape, ?_⟩
  intro row col channel hrow hcol hchannel
  rw [h.entry row col channel (hrows ▸ hrow) (hcols ▸ hcol) (hchannels ▸ hchannel)]
  exact hfg row col channel hrow hcol hchannel

/-- A lift is determined by the function that it is the lift of. -/
theorem unique {out' : Matrix} (h : out.IsLift m f) (h' : out'.IsLift m f) : out = out' := by
  obtain ⟨hrows, hcols, hchannels⟩ := sameShape_iff.mp h.shape
  obtain ⟨hrows', hcols', hchannels'⟩ := sameShape_iff.mp h'.shape
  refine ext_of_entry (h.plain.trans h'.plain.symm) (hrows.trans hrows'.symm)
    (hcols.trans hcols'.symm) (hchannels.trans hchannels'.symm) h.valid.size h'.valid.size ?_
  intro row col channel hrow hcol hchannel
  rw [hrows] at hrow
  rw [hcols] at hcol
  rw [hchannels] at hchannel
  rw [h.entry row col channel hrow hcol hchannel, h'.entry row col channel hrow hcol hchannel]

/-- Within the sizes of a lift there is an entry, and it is the value of the function. -/
theorem get?_eq (h : out.IsLift m f) (hrow : row < out.rows) (hcol : col < out.cols)
    (hchannel : channel < out.channels) : out.get? row col channel = some (f row col channel) := by
  obtain ⟨hrows, hcols, hchannels⟩ := sameShape_iff.mp h.shape
  rw [Matrix.get?, if_pos ⟨hrow, hcol, hchannel⟩, h.entry row col channel (hrows ▸ hrow)
    (hcols ▸ hcol) (hchannels ▸ hchannel)]

end IsLift

/-- A map is the lift of its function on the entries. -/
theorem Valid.isLift_map (h : m.Valid) (f : Float → Float) :
    ∃ out, m.map f = .ok out ∧
      out.IsLift m fun row col channel => f (m.entry row col channel) := by
  have hwf := h.wellFormed.mapEntries f
  refine ⟨_, hwf.generic, hwf.retag_plain, rfl, sameShape_refl m, ?_⟩
  intro row col channel hrow hcol hchannel
  have hindex := index_lt_size h.size hrow hcol hchannel
  have hindex' : m.index row col channel < (m.data.map f).size := by
    rwa [Array.size_map]
  rw [entry_eq_getElem hindex]
  exact (entry_eq_getElem hindex').trans (Array.getElem_map ..)

/-- Combining two matrices of one shape is the lift of the function on both entries. -/
theorem Valid.isLift_zipWith (ha : a.Valid) (hb : b.Valid) (hshape : a.sameShape b = true)
    (f : Float → Float → Float) :
    ∃ out, a.zipWith f b = .ok out ∧
      out.IsLift a fun row col channel => f (a.entry row col channel) (b.entry row col channel) := by
  obtain ⟨out, hout, hvalid, hsame⟩ := ha.zipWith hb hshape f
  obtain ⟨hrows, hcols, hchannels⟩ := sameShape_iff.mp hshape
  have hgeneric : out = retag { a with data := Array.zipWith f a.data b.data } .plain := by
    rw [Matrix.zipWith, if_pos hshape, generic, if_pos ha.wellFormed.channels] at hout
    exact (Except.ok.inj hout).symm
  subst hgeneric
  refine ⟨_, hout, hvalid, rfl, hsame, ?_⟩
  intro row col channel hrow hcol hchannel
  have hindex := index_lt_size ha.size hrow hcol hchannel
  have hplace : a.index row col channel = b.index row col channel := by
    rw [index, index, hcols, hchannels]
  have hindex' := index_lt_size hb.size (hrows ▸ hrow) (hcols ▸ hcol) (hchannels ▸ hchannel)
  have hzip : a.index row col channel < (Array.zipWith f a.data b.data).size := by
    rw [Array.size_zipWith]
    omega
  rw [entry_eq_getElem hindex, entry_eq_getElem hindex']
  simp only [← hplace]
  exact (entry_eq_getElem hzip).trans (Array.getElem_zipWith ..)

/-- A pixel of a mask is 255 if the test holds of all channels, and 0 otherwise. -/
theorem get?_maskBy (p : Nat → Nat → Nat → Bool) (hrow : row < m.rows) (hcol : col < m.cols) :
    (m.maskBy p).get? row col 0 = some 255 ∧ (∀ channel < m.channels, p row col channel = true) ∨
      (m.maskBy p).get? row col 0 = some 0 ∧ ∃ channel < m.channels, p row col channel = false := by
  have hget : (m.maskBy p).get? row col 0 =
      some (if (List.range m.channels).all fun channel => p row col channel then 255 else 0) :=
    (if_pos ⟨hrow, hcol, Nat.one_pos⟩).trans
      (congrArg some (entry_tabulate hrow hcol Nat.one_pos))
  rw [hget]
  by_cases hall : ((List.range m.channels).all fun channel => p row col channel) = true
  · rw [if_pos hall]
    exact .inl ⟨rfl, by simpa using hall⟩
  · rw [if_neg hall]
    exact .inr ⟨rfl, by simpa using hall⟩

end Matrix
end PixelCalc
