import PixelCalc.Proofs.Matrix.Validity

/-!
# Channels taken out and put in

To take channels out of a matrix and to put channels into it are described entry by entry. From the
entries follow the laws of reading and writing: what was put in is found again, nothing else has
changed, and what is written later counts.

- `tabulate_congr`, `eq_tabulate`: tabulated matrices are the same if their entries are.
- `entry_channelBlock`, `entry_replaceChannels`: the entries of the two constructions.
- `channelBlock_replaceChannels`, `channelBlock_replaceChannels_of_disjoint`: reading after writing.
- `replaceChannels_channelBlock`: writing what was read.
- `replaceChannels_replaceChannels`, `replaceChannels_comm`: writing twice.
- `replaceChannels_succ`: several channels are written one after the other.
-/

namespace PixelCalc
namespace Matrix

variable {m r r' : Matrix} {kind kind' kind'' : MatrixKind} {rows cols channels : Nat}
  {f g : Nat → Nat → Nat → Float} {span : Span} {first first' row col channel n : Nat}

/-! ### Entries -/

theorem sameSize_iff : r.sameSize m = true ↔ r.rows = m.rows ∧ r.cols = m.cols := by
  simp [sameSize]

/-- Matrices of one shape are equal if they have equal entries. -/
theorem tabulate_congr (h : ∀ row col channel, row < rows → col < cols → channel < channels →
    f row col channel = g row col channel) :
    tabulate kind rows cols channels f = tabulate kind rows cols channels g := by
  refine ext_of_entry rfl rfl rfl rfl (size_tabulate ..) (size_tabulate ..) ?_
  intro row col channel (hrow : row < rows) (hcol : col < cols) (hchannel : channel < channels)
  rw [entry_tabulate hrow hcol hchannel, entry_tabulate hrow hcol hchannel]
  exact h row col channel hrow hcol hchannel

/-- A matrix that holds enough numbers is the table of its entries. -/
theorem eq_tabulate (h : m.data.size = m.rows * m.cols * m.channels) :
    m = tabulate m.kind m.rows m.cols m.channels m.entry :=
  ext_of_entry rfl rfl rfl rfl h (size_tabulate ..) fun _ _ _ hrow hcol hchannel =>
    (entry_tabulate hrow hcol hchannel).symm

/-- A matrix is the table of its entries, under any kind. -/
theorem retag_eq_tabulate (h : m.data.size = m.rows * m.cols * m.channels) (kind : MatrixKind) :
    m.retag kind = tabulate kind m.rows m.cols m.channels m.entry :=
  eq_tabulate (m := m.retag kind) h

/-- Channels are taken out at every pixel. -/
theorem channelBlock_eq (m : Matrix) (kind : MatrixKind) (span : Span) :
    m.channelBlock kind span = tabulate kind m.rows m.cols span.length fun row col channel =>
      m.entry row col (span.start + channel) := by
  unfold channelBlock block
  simp only [Span.all, Span.length, Nat.zero_add, Nat.sub_zero]

/-- An entry of a block of channels is one of the whole, moved by where the block starts. -/
theorem entry_channelBlock (hrow : row < m.rows) (hcol : col < m.cols)
    (hchannel : channel < span.length) :
    (m.channelBlock kind span).entry row col channel = m.entry row col (span.start + channel) := by
  rw [channelBlock_eq, entry_tabulate hrow hcol hchannel]

/-- An entry after a replacement is one of the new channels where they were put, and an old one
elsewhere. -/
theorem entry_replaceChannels (hrow : row < m.rows) (hcol : col < m.cols)
    (hchannel : channel < m.channels) :
    (m.replaceChannels kind first r).entry row col channel =
      if first ≤ channel ∧ channel < first + r.channels then r.entry row col (channel - first)
      else m.entry row col channel :=
  entry_tabulate hrow hcol hchannel

/-! ### Reading -/

/-- All channels of a matrix. -/
theorem channelBlock_all (h : m.data.size = m.rows * m.cols * m.channels) (kind : MatrixKind) :
    m.channelBlock kind (.all m.channels) = m.retag kind := by
  rw [channelBlock_eq, retag_eq_tabulate h]
  refine tabulate_congr fun row col channel _ _ _ => ?_
  rw [Span.all, Nat.zero_add]

/-- What was put in is found again. -/
theorem channelBlock_replaceChannels (hr : r.data.size = r.rows * r.cols * r.channels)
    (hsize : r.sameSize m = true) (hfits : first + r.channels ≤ m.channels) :
    (m.replaceChannels kind first r).channelBlock kind' ⟨first, first + r.channels⟩ =
      r.retag kind' := by
  obtain ⟨hrows, hcols⟩ := sameSize_iff.mp hsize
  have hlength : Span.length ⟨first, first + r.channels⟩ = r.channels := Nat.add_sub_cancel_left ..
  rw [channelBlock_eq, retag_eq_tabulate hr, hlength, hrows, hcols]
  refine tabulate_congr fun row col channel (hrow : row < m.rows) (hcol : col < m.cols)
    (hchannel : channel < r.channels) => ?_
  show (m.replaceChannels kind first r).entry row col (first + channel) = _
  rw [entry_replaceChannels hrow hcol (by omega), if_pos ⟨by omega, by omega⟩,
    Nat.add_sub_cancel_left]

/-- Channels are not changed by what is put in beside them. -/
theorem channelBlock_replaceChannels_of_disjoint (hspan : span.stop ≤ m.channels)
    (hdisjoint : span.stop ≤ first ∨ first + r.channels ≤ span.start) :
    (m.replaceChannels kind first r).channelBlock kind' span = m.channelBlock kind' span := by
  rw [channelBlock_eq, channelBlock_eq]
  refine tabulate_congr fun row col channel (hrow : row < m.rows) (hcol : col < m.cols)
    hchannel => ?_
  unfold Span.length at hchannel
  rw [entry_replaceChannels hrow hcol (by omega), if_neg (by omega)]

/-! ### Writing -/

/-- To put in what is there changes nothing. -/
theorem replaceChannels_channelBlock (h : m.data.size = m.rows * m.cols * m.channels)
    (kind kind' : MatrixKind) (span : Span) :
    m.replaceChannels kind span.start (m.channelBlock kind' span) = m.retag kind := by
  rw [retag_eq_tabulate h]
  refine tabulate_congr fun row col channel hrow hcol _ => ?_
  have hchannels : (m.channelBlock kind' span).channels = span.length := rfl
  rw [hchannels]
  by_cases hinside : span.start ≤ channel ∧ channel < span.start + span.length
  · rw [if_pos hinside, entry_channelBlock hrow hcol (by omega), Nat.add_sub_cancel' hinside.1]
  · rw [if_neg hinside]

/-- What is put in later counts. -/
theorem replaceChannels_replaceChannels (hchannels : r.channels = r'.channels) :
    (m.replaceChannels kind first r).replaceChannels kind' first r' =
      m.replaceChannels kind' first r' := by
  refine tabulate_congr fun row col channel (hrow : row < m.rows) (hcol : col < m.cols)
    hchannel => ?_
  rw [entry_replaceChannels hrow hcol hchannel, hchannels]
  by_cases hinside : first ≤ channel ∧ channel < first + r'.channels
  · rw [if_pos hinside, if_pos hinside]
  · rw [if_neg hinside, if_neg hinside, if_neg hinside]

/-- Channels that do not overlap may be put in in any order. -/
theorem replaceChannels_comm
    (hdisjoint : first + r.channels ≤ first' ∨ first' + r'.channels ≤ first) :
    (m.replaceChannels kind first r).replaceChannels kind'' first' r' =
      (m.replaceChannels kind' first' r').replaceChannels kind'' first r := by
  refine tabulate_congr fun row col channel (hrow : row < m.rows) (hcol : col < m.cols)
    hchannel => ?_
  rw [entry_replaceChannels hrow hcol hchannel, entry_replaceChannels hrow hcol hchannel]
  by_cases hinside : first ≤ channel ∧ channel < first + r.channels
  · rw [if_pos hinside, if_pos hinside, if_neg (by omega)]
  · rw [if_neg hinside, if_neg hinside]

/-- Several channels are put in one after the other. -/
theorem replaceChannels_succ (hr : r.sameSize m = true) :
    (m.replaceChannels kind first (r.channelBlock kind'' (.all n))).replaceChannels kind'
        (first + n) (r.channelBlock kind'' (.single n)) =
      m.replaceChannels kind' first (r.channelBlock kind'' (.all (n + 1))) := by
  obtain ⟨hrows, hcols⟩ := sameSize_iff.mp hr
  have hall (n : Nat) : (r.channelBlock kind'' (.all n)).channels = n := rfl
  have hsingle : (r.channelBlock kind'' (.single n)).channels = 1 := Nat.add_sub_cancel_left ..
  refine tabulate_congr fun row col channel (hrow : row < m.rows) (hcol : col < m.cols)
    hchannel => ?_
  have hentry {span : Span} {i : Nat} (hi : i < span.length) :
      (r.channelBlock kind'' span).entry row col i = r.entry row col (span.start + i) :=
    entry_channelBlock (hrows ▸ hrow) (hcols ▸ hcol) hi
  rw [entry_replaceChannels hrow hcol hchannel, hsingle, hall, hall]
  -- a channel before the one that is put in last, that one, or one behind it
  obtain hbefore | rfl | hbehind := Nat.lt_trichotomy channel (first + n)
  · by_cases hinside : first ≤ channel
    · have hlt : channel - first < n := by omega
      rw [if_neg (by omega), if_pos (by omega), if_pos (by omega), hentry hlt,
        hentry (Nat.lt_succ_of_lt hlt)]
      rfl
    · rw [if_neg (by omega), if_neg (by omega), if_neg (by omega)]
  · rw [if_pos (by omega), if_pos (by omega), Nat.sub_self, Nat.add_sub_cancel_left,
      hentry (Nat.lt_of_lt_of_eq Nat.one_pos hsingle.symm), hentry (Nat.lt_succ_self n)]
    show r.entry row col n = r.entry row col (0 + n)
    rw [Nat.zero_add]
  · rw [if_neg (by omega), if_neg (by omega), if_neg (by omega)]

/-- Three channels are put in one after the other. -/
theorem replaceChannels_three {kind₀ kind₁ kind₂ : MatrixKind}
    (hr : r.data.size = r.rows * r.cols * r.channels) (hsize : r.sameSize m = true)
    (hchannels : r.channels = 3) :
    ((m.replaceChannels kind₀ 0 (r.channelBlock kind (.single 0))).replaceChannels kind₁ 1
        (r.channelBlock kind (.single 1))).replaceChannels kind₂ 2
          (r.channelBlock kind (.single 2)) = m.replaceChannels kind₂ 0 r := by
  have htwo : (m.replaceChannels kind₀ 0 (r.channelBlock kind (.single 0))).replaceChannels kind₁ 1
      (r.channelBlock kind (.single 1)) =
        m.replaceChannels kind₁ 0 (r.channelBlock kind (.all 2)) :=
    replaceChannels_succ (n := 1) hsize
  have hthree : (m.replaceChannels kind₁ 0 (r.channelBlock kind (.all 2))).replaceChannels kind₂ 2
      (r.channelBlock kind (.single 2)) =
        m.replaceChannels kind₂ 0 (r.channelBlock kind (.all 3)) :=
    replaceChannels_succ (n := 2) hsize
  rw [htwo, hthree, ← hchannels, channelBlock_all hr]
  rfl

end Matrix
end PixelCalc
