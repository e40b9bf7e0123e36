import PixelCalc.Proofs.Binary64.Whole
import PixelCalc.Proofs.Builtin.Slices
import PixelCalc.Proofs.Matrix.Channels

/-!
# Reading and replacing channels

The functions that read channels and those that replace them cut the channels of a matrix with
indices of their own. Together they obey the laws of reading and writing: what was put in is found
again, the other channels stay as they are, and of two replacements of one channel the later one
counts. The functions for colours and for alpha agree with those for a single channel.

- `Matrix.Fits`, `Matrix.HasChannel`: what may be put into a matrix, and where;
  `Matrix.Valid.hasChannel` says that the index of a channel selects it.
- `Value.channel`, `Value.putChannel` and so on: the calls.
- `channel_matrix`, `putChannel_matrix` and so on: what the calls return.
- `Matrix.ChannelLaws`, `Matrix.ColourLaws`: the laws.
- `channel_laws`: every valid matrix obeys them.
-/

namespace PixelCalc

open Builtin hiding min max

variable {m r r' c : Matrix} {x y : Float} {i j channels : Nat}

/-! ### Calls -/

namespace Value

/-- One channel of a matrix. -/
def channel (v : Value) (x : Float) : Value :=
  getChannel.invoke [v, .number x]

/-- A matrix with one channel replaced. -/
def putChannel (v : Value) (x : Float) (w : Value) : Value :=
  replaceChannel.invoke [v, .number x, w]

/-- A matrix without its alpha channel. -/
def rgb (v : Value) : Value :=
  getRgb.invoke [v]

/-- A matrix with all channels but alpha replaced. -/
def putRgb (v w : Value) : Value :=
  rgbReplace.invoke [v, w]

/-- A matrix with its alpha channel replaced. -/
def putAlpha (v w : Value) : Value :=
  alphaReplace.invoke [v, w]

/-- A matrix as plain numbers. -/
def plain (v : Value) : Value :=
  toMatrix.invoke [v]

/-- Both values are one and the same valid matrix. -/
def SameMatrix (v w : Value) : Prop :=
  ∃ m : Matrix, m.Valid ∧ v = .matrix m ∧ w = .matrix m

end Value

namespace Matrix

/-- A matrix of the size of `m` with so many channels. -/
structure Fits (r m : Matrix) (channels : Nat) : Prop where
  valid : r.Valid
  size : r.sameSize m = true
  channels : r.channels = channels

/-- The number selects a channel of the matrix: it is nearest to its index. -/
structure HasChannel (m : Matrix) (x : Float) (i : Nat) : Prop where
  nearest : Binary64.nearestInt? x = some (i : Int)
  lt : i < m.channels

/-- A number that selects a channel is accepted as its index by every function that takes one. -/
theorem HasChannel.channelIndex_eq (h : m.HasChannel x i) (f : Builtin) :
    channelIndex f x m = .ok i := by
  rw [channelIndex, h.nearest]
  exact if_pos h.lt

/-- Every channel is selected by its index. -/
theorem Valid.hasChannel (hm : m.Valid) (hi : i < m.channels) :
    m.HasChannel (Binary64.ofNatural i) i := by
  have hle := (MatrixKind.accepts_bounds hm.accepts).2
  refine ⟨?_, hi⟩
  obtain rfl | hpos := Nat.eq_zero_or_pos i
  · decide
  · exact (Binary64.isWhole_ofNatural hpos (by omega)).nearestInt?

theorem HasChannel.replaceChannels (h : m.HasChannel x i) (kind : MatrixKind) (first : Nat)
    (r : Matrix) : (m.replaceChannels kind first r).HasChannel x i :=
  ⟨h.nearest, h.lt⟩

theorem Fits.replaceChannels (h : r.Fits m channels) (kind : MatrixKind) (first : Nat)
    (r' : Matrix) : r.Fits (m.replaceChannels kind first r') channels :=
  ⟨h.valid, h.size, h.channels⟩

theorem Valid.channel (hm : m.Valid) (i : Nat) : (m.channelBlock .plain (.single i)).Valid :=
  hm.channelBlock (accepts_single i) nofun

/-- A channel of a matrix of the same size fits on a channel. -/
theorem Valid.fits_channel (hr : r.Valid) (hsize : r.sameSize m = true) (i : Nat) :
    (r.channelBlock .plain (.single i)).Fits m 1 :=
  ⟨hr.channel i, hsize, length_single i⟩

/-- A matrix with one channel replaced is valid. The kind may have changed before, since a mask with
other numbers in it is none. -/
theorem Valid.putChannel (hm : m.Valid) (i : Nat) (r : Matrix) :
    (m.replaceChannels (kindAfterReplacing m.kind) i r).Valid :=
  have h := kindAfterReplacing_accepts hm.accepts
  hm.replaceChannels h.1 h.2

/-- A channel that keeps the kind of the matrix, if that accepts a single one. -/
theorem Valid.part (hm : m.Valid) (i : Nat) :
    (m.block (partKind m.kind 1) (.all m.rows) (.all m.cols) (.single i)).Valid := by
  obtain ⟨haccepts, hkind⟩ := @partKind_accepts m.kind 1 Nat.one_pos (by decide)
  refine hm.block hm.rows_pos hm.cols_pos ?_ hkind
  rw [length_single]
  exact haccepts

/-- Any kind but that of masks may be put on a matrix whose channels it accepts. -/
theorem Valid.retag (hm : m.Valid) {kind : MatrixKind} (haccepts : kind.accepts m.channels = true)
    (hkind : kind ≠ .mask) : (m.retag kind).Valid :=
  ⟨hm.rows_pos, hm.cols_pos, haccepts, hm.size, fun hmask => absurd hmask hkind⟩

/-- The kind changes with the first replacement only. -/
theorem kindAfterReplacing_idem (kind : MatrixKind) :
    kindAfterReplacing (kindAfterReplacing kind) = kindAfterReplacing kind := by
  cases kind <;> rfl

theorem Valid.putColours (hm : m.Valid) (hchannels : m.channels = 4) (first : Nat) (r : Matrix) :
    (m.replaceChannels m.kind first r).Valid :=
  hm.replaceChannels hm.accepts (kind_ne_mask hm hchannels)

/-- Four channels are never a mask, so the kind stays. -/
theorem Valid.kindAfterReplacing_eq (hm : m.Valid) (hchannels : m.channels = 4) :
    kindAfterReplacing m.kind = m.kind :=
  if_neg (kind_ne_mask hm hchannels)

end Matrix

/-! ### What the calls return -/

namespace Value

/-- A channel that is there is returned as a plain matrix. -/
theorem channel_matrix (hm : m.Valid) (hx : m.HasChannel x i) :
    (matrix m).channel x = .matrix (m.channelBlock .plain (.single i)) := by
  have hvalues : ∀ v ∈ [Value.matrix m, .number x], v.isError = false := by
    simp [Value.isError]
  have hbody : getChannel.run [.matrix m, .number x] = (do
      let i ← channelIndex getChannel x m
      return .matrix (← built (m.channelBlock .plain (.single i)).generic)) := rfl
  rw [hx.channelIndex_eq] at hbody
  refine invoke_of_run hvalues (hbody.trans ?_)
  show (do return Value.matrix (← built (m.channelBlock .plain (.single i)).generic)) = _
  rw [(hm.channel i).wellFormed.generic]
  rfl

/-- A channel is replaced where the matrix has it and the new one fits: one channel of the same rows
and columns. No check of the body fails then, and what it builds is valid. -/
theorem putChannel_matrix (hm : m.Valid) (hx : m.HasChannel x i) (hr : r.Fits m 1) :
    (matrix m).putChannel x (matrix r) =
      .matrix (m.replaceChannels (kindAfterReplacing m.kind) i r) := by
  have hvalues : ∀ v ∈ [Value.matrix m, .number x, .matrix r], v.isError = false := by
    simp [Value.isError]
  have hbody : replaceChannel.run [.matrix m, .number x, .matrix r] = (do
      let i ← channelIndex replaceChannel x m
      checkChannels replaceChannel "replaceMat" r 1
      checkSize replaceChannel "replaceMat" r m
      finish replaceChannel (m.replaceChannels (kindAfterReplacing m.kind) i r).check) := rfl
  rw [hx.channelIndex_eq, checkChannels, if_pos hr.channels, checkSize, if_pos hr.size] at hbody
  refine invoke_of_run hvalues (hbody.trans ?_)
  show finish replaceChannel (m.replaceChannels (kindAfterReplacing m.kind) i r).check = _
  rw [Matrix.check_of_valid (hm.putChannel i r)]
  rfl

/-- The first three of four channels are replaced, and the kind stays. -/
theorem putRgb_matrix (hm : m.Valid) (hchannels : m.channels = 4) (hc : c.Fits m 3) :
    (matrix m).putRgb (matrix c) = .matrix (m.replaceChannels m.kind 0 c) := by
  have hvalues : ∀ v ∈ [Value.matrix m, .matrix c], v.isError = false := by
    simp [Value.isError]
  have hbody : rgbReplace.run [.matrix m, .matrix c] = (do
      checkChannels rgbReplace "mat" m 4
      checkChannels rgbReplace "rgb" c 3
      checkSize rgbReplace "rgb" c m
      finish rgbReplace (m.replaceChannels m.kind 0 c).check) := rfl
  rw [checkChannels, if_pos hchannels, checkChannels, if_pos hc.channels, checkSize,
    if_pos hc.size, Matrix.check_of_valid (hm.putColours hchannels 0 c)] at hbody
  exact invoke_of_run hvalues hbody

/-- The last of four channels is replaced, and the kind stays. -/
theorem putAlpha_matrix (hm : m.Valid) (hchannels : m.channels = 4) (hr : r.Fits m 1) :
    (matrix m).putAlpha (matrix r) = .matrix (m.replaceChannels m.kind 3 r) := by
  have hvalues : ∀ v ∈ [Value.matrix m, .matrix r], v.isError = false := by
    simp [Value.isError]
  have hbody : alphaReplace.run [.matrix m, .matrix r] = (do
      checkChannels alphaReplace "mat" m 4
      checkChannels alphaReplace "alpha" r 1
      checkSize alphaReplace "alpha" r m
      finish alphaReplace (m.replaceChannels m.kind 3 r).check) := rfl
  rw [checkChannels, if_pos hchannels, checkChannels, if_pos hr.channels, checkSize,
    if_pos hr.size, Matrix.check_of_valid (hm.putColours hchannels 3 r)] at hbody
  exact invoke_of_run hvalues hbody

/-- Of four channels the first three are returned, with the kind that goes without alpha. -/
theorem rgb_matrix (hm : m.Valid) (hchannels : m.channels = 4) :
    (matrix m).rgb = .matrix (m.channelBlock m.kind.withoutAlpha ⟨0, 3⟩) := by
  have hvalues : ∀ v ∈ [Value.matrix m], v.isError = false := by
    simp [Value.isError]
  obtain ⟨haccepts, hkind⟩ := withoutAlpha_accepts (hchannels ▸ hm.accepts)
  have hpart : (m.channelBlock m.kind.withoutAlpha ⟨0, 3⟩).Valid :=
    hm.channelBlock haccepts fun hmask => absurd hmask hkind
  have hbody : getRgb.run [.matrix m] =
      if m.channels = 3 then .ok (.matrix m)
      else if m.channels = 4 then
        finish getRgb (m.channelBlock m.kind.withoutAlpha ⟨0, 3⟩).check
      else .error (.argumentType getRgb "mat" m.text "a 3-channel or 4-channel [Mat]") := rfl
  rw [if_neg (by omega), if_pos hchannels, Matrix.check_of_valid hpart] at hbody
  exact invoke_of_run hvalues hbody

/-- Any matrix is returned as plain numbers. -/
theorem plain_matrix (hm : m.Valid) : (matrix m).plain = .matrix (m.retag .plain) := by
  have hvalues : ∀ v ∈ [Value.matrix m], v.isError = false := by
    simp [Value.isError]
  have hbody : toMatrix.run [.matrix m] = finish toMatrix (m.retag .plain).check := rfl
  rw [Matrix.check_of_valid hm.wellFormed.retag_plain] at hbody
  exact invoke_of_run hvalues hbody

/-- The part of a matrix that a number selects on the axis of channels. -/
theorem subMat_channel (hm : m.Valid) (hx : m.HasChannel x i) :
    subMat.invoke [.matrix m, .range .full, .range .full, .number x] =
      .matrix (m.block (partKind m.kind 1) (.all m.rows) (.all m.cols) (.single i)) := by
  have hvalues : ∀ v ∈ [Value.matrix m, .range .full, .range .full, .number x],
      v.isError = false := by
    simp [Value.isError]
  have hbody : subMat.run [.matrix m, .range .full, .range .full, .number x] = (do
      let rows ← select .y m.rows (.range .full)
      let cols ← select .x m.cols (.range .full)
      let channels ← select .channel m.channels (.number x)
      partOf m rows cols channels) := rfl
  have hchannel : (Value.number x).Selects m.channels (.single i) :=
    .number hx.nearest (if_neg (by omega)).symm hx.lt
  rw [select_of_selects .y (selects_full hm.rows_pos),
    select_of_selects .x (selects_full hm.cols_pos), select_of_selects .channel hchannel] at hbody
  refine invoke_of_run hvalues (hbody.trans ?_)
  have hfinish : finish subMat (m.block (partKind m.kind (Span.single i).length) (.all m.rows)
      (.all m.cols) (.single i)).check =
        .ok (.matrix (m.block (partKind m.kind 1) (.all m.rows) (.all m.cols) (.single i))) := by
    rw [length_single, Matrix.check_of_valid (hm.part i)]
    rfl
  exact hfinish

end Value

/-! ### The laws -/

/-- The laws of reading and replacing a channel. -/
structure Matrix.ChannelLaws (m : Matrix) : Prop where
  get_put {x y : Float} {i : Nat} {r : Matrix} :
    m.HasChannel x i → m.HasChannel y i → r.Fits m 1 →
      (((Value.matrix m).putChannel x (.matrix r)).channel y).SameMatrix (.matrix (r.retag .plain))
  get_put_of_ne {x y : Float} {i j : Nat} {r : Matrix} :
    m.HasChannel x i → m.HasChannel y j → i ≠ j → r.Fits m 1 →
      (((Value.matrix m).putChannel x (.matrix r)).channel y).SameMatrix
        ((Value.matrix m).channel y)
  put_get {x : Float} {i : Nat} : m.HasChannel x i →
    ((Value.matrix m).putChannel x ((Value.matrix m).channel x)).SameMatrix
      (.matrix (if m.kind = .mask then m.retag .plain else m))
  put_put {x y : Float} {i : Nat} {r r' : Matrix} :
    m.HasChannel x i → m.HasChannel y i → r.Fits m 1 → r'.Fits m 1 →
      (((Value.matrix m).putChannel x (.matrix r)).putChannel y (.matrix r')).SameMatrix
        ((Value.matrix m).putChannel y (.matrix r'))
  put_comm {x y : Float} {i j : Nat} {r r' : Matrix} :
    m.HasChannel x i → m.HasChannel y j → i ≠ j → r.Fits m 1 → r'.Fits m 1 →
      (((Value.matrix m).putChannel x (.matrix r)).putChannel y (.matrix r')).SameMatrix
        (((Value.matrix m).putChannel y (.matrix r')).putChannel x (.matrix r))
  get_eq_part {x : Float} {i : Nat} : m.HasChannel x i →
    ((Value.matrix m).channel x).SameMatrix
      (subMat.invoke [.matrix m, .range .full, .range .full, .number x]).plain

/-- The laws of replacing the colours and the alpha channel of a matrix of four channels. -/
structure Matrix.ColourLaws (m : Matrix) : Prop where
  putAlpha_eq {x : Float} {r : Matrix} : m.HasChannel x 3 → r.Fits m 1 →
    ((Value.matrix m).putAlpha (.matrix r)).SameMatrix ((Value.matrix m).putChannel x (.matrix r))
  putRgb_eq {x₀ x₁ x₂ : Float} {c : Matrix} :
    m.HasChannel x₀ 0 → m.HasChannel x₁ 1 → m.HasChannel x₂ 2 → c.Fits m 3 →
      ((Value.matrix m).putRgb (.matrix c)).SameMatrix
        ((((Value.matrix m).putChannel x₀ ((Value.matrix c).channel x₀)).putChannel x₁
          ((Value.matrix c).channel x₁)).putChannel x₂ ((Value.matrix c).channel x₂))
  rgb_putRgb {c : Matrix} : c.Fits m 3 →
    ((Value.matrix m).putRgb (.matrix c)).rgb.SameMatrix (.matrix (c.retag m.kind.withoutAlpha))
  put_comm {c r : Matrix} : c.Fits m 3 → r.Fits m 1 →
    (((Value.matrix m).putRgb (.matrix c)).putAlpha (.matrix r)).SameMatrix
      (((Value.matrix m).putAlpha (.matrix r)).putRgb (.matrix c))

namespace Matrix.Valid

open Value

/-- The laws for single channels. Each is a law of blocks of channels, once the calls are known to
return them and their matrices to be valid. -/
theorem channelLaws (hm : m.Valid) : m.ChannelLaws where
  get_put {x y i r} hx hy hr := by
    rw [putChannel_matrix hm hx hr, channel_matrix (hm.putChannel i r) (hy.replaceChannels _ i r)]
    have hspan : Span.single i = ⟨i, i + r.channels⟩ := by rw [hr.channels]; rfl
    rw [hspan, channelBlock_replaceChannels hr.valid.size hr.size (hr.channels ▸ hx.lt)]
    exact ⟨_, hr.valid.wellFormed.retag_plain, rfl, rfl⟩
  get_put_of_ne {x y i j r} hx hy hne hr := by
    -- the channels cut out lie beside those that were put in
    have hdisjoint : (Span.single j).stop ≤ i ∨ i + r.channels ≤ (Span.single j).start := by
      rw [hr.channels]
      show j + 1 ≤ i ∨ i + 1 ≤ j
      omega
    have hstop : (Span.single j).stop ≤ m.channels := hy.lt
    rw [putChannel_matrix hm hx hr, channel_matrix (hm.putChannel i r) (hy.replaceChannels _ i r),
      channelBlock_replaceChannels_of_disjoint hstop hdisjoint, channel_matrix hm hy]
    exact ⟨_, hm.channel j, rfl, rfl⟩
  put_get {x i} hx := by
    have hown := replaceChannels_channelBlock hm.size (kindAfterReplacing m.kind) .plain (.single i)
    have hvalid := hm.putChannel i (m.channelBlock .plain (.single i))
    have hkind : m.retag (kindAfterReplacing m.kind) =
        if m.kind = .mask then m.retag .plain else m := by
      unfold kindAfterReplacing
      split <;> rfl
    have hfits := hm.fits_channel (sameSize_iff.mpr ⟨rfl, rfl⟩) i
    rw [channel_matrix hm hx, putChannel_matrix hm hx hfits, ← hkind, ← hown]
    exact ⟨_, hvalid, rfl, rfl⟩
  put_put {x y i r r'} hx hy hr hr' := by
    rw [putChannel_matrix hm hx hr, putChannel_matrix (hm.putChannel i r)
      (hy.replaceChannels _ i r) (hr'.replaceChannels _ i r),
      replaceChannels_replaceChannels (hr.channels.trans hr'.channels.symm),
      putChannel_matrix hm hy hr']
    exact ⟨_, hm.putChannel i r', congrArg (fun kind => matrix (m.replaceChannels kind i r'))
      (kindAfterReplacing_idem m.kind), rfl⟩
  put_comm {x y i j r r'} hx hy hne hr hr' := by
    -- two different channels do not overlap, so either may be put in first
    have hdisjoint : i + r.channels ≤ j ∨ j + r'.channels ≤ i := by
      rw [hr.channels, hr'.channels]
      omega
    rw [putChannel_matrix hm hx hr, putChannel_matrix (hm.putChannel i r)
      (hy.replaceChannels _ i r) (hr'.replaceChannels _ i r), putChannel_matrix hm hy hr',
      putChannel_matrix (hm.putChannel j r') (hx.replaceChannels _ j r')
        (hr.replaceChannels _ j r')]
    exact ⟨_, (hm.putChannel i r).putChannel j r', rfl,
      congrArg Value.matrix (replaceChannels_comm hdisjoint).symm⟩
  get_eq_part {x i} hx := by
    rw [channel_matrix hm hx, subMat_channel hm hx, plain_matrix (hm.part i)]
    exact ⟨_, hm.channel i, rfl, rfl⟩

/-- The laws for colours: three channels at once are three single ones, and alpha is the fourth.
With four channels the kind never changes, so whole matrices are equal. -/
theorem colourLaws (hm : m.Valid) (hchannels : m.channels = 4) : m.ColourLaws where
  putAlpha_eq {x r} hx hr := by
    rw [putAlpha_matrix hm hchannels hr, putChannel_matrix hm hx hr,
      hm.kindAfterReplacing_eq hchannels]
    exact ⟨_, hm.putColours hchannels 3 r, rfl, rfl⟩
  putRgb_eq {x₀ x₁ x₂ c} h₀ h₁ h₂ hc := by
    have hcolour {x i} (h : m.HasChannel x i) (hi : i < 3) : c.HasChannel x i :=
      ⟨h.nearest, hc.channels ▸ hi⟩
    have hfits (i) := hc.valid.fits_channel hc.size i
    rw [channel_matrix hc.valid (hcolour h₀ (by decide)),
      channel_matrix hc.valid (hcolour h₁ (by decide)),
      channel_matrix hc.valid (hcolour h₂ (by decide)), putChannel_matrix hm h₀ (hfits 0),
      putChannel_matrix (hm.putChannel 0 _) (h₁.replaceChannels ..) ((hfits 1).replaceChannels ..),
      putChannel_matrix ((hm.putChannel 0 _).putChannel 1 _)
        ((h₂.replaceChannels ..).replaceChannels ..)
        (((hfits 2).replaceChannels ..).replaceChannels ..), putRgb_matrix hm hchannels hc]
    refine ⟨_, hm.putColours hchannels 0 c, rfl, congrArg Value.matrix ?_⟩
    refine (replaceChannels_three hc.valid.size hc.size hc.channels).trans ?_
    show m.replaceChannels
      (kindAfterReplacing (kindAfterReplacing (kindAfterReplacing m.kind))) 0 c = _
    rw [kindAfterReplacing_idem, kindAfterReplacing_idem, hm.kindAfterReplacing_eq hchannels]
  rgb_putRgb {c} hc := by
    have hspan : (⟨0, 3⟩ : Span) = ⟨0, 0 + c.channels⟩ := by
      rw [hc.channels]
    have hfits : 0 + c.channels ≤ m.channels := by
      rw [hc.channels, hchannels]
      decide
    obtain ⟨haccepts, hkind⟩ := withoutAlpha_accepts (hchannels ▸ hm.accepts)
    rw [putRgb_matrix hm hchannels hc, rgb_matrix (hm.putColours hchannels 0 c) hchannels, hspan,
      channelBlock_replaceChannels hc.valid.size hc.size hfits]
    exact ⟨_, hc.valid.retag (hc.channels.symm ▸ haccepts) hkind, rfl, rfl⟩
  put_comm {c r} hc hr := by
    have hthree := hc.channels
    have hdisjoint : 0 + c.channels ≤ 3 ∨ 3 + r.channels ≤ 0 := .inl (by omega)
    rw [putRgb_matrix hm hchannels hc, putAlpha_matrix (hm.putColours hchannels 0 c) hchannels
      (hr.replaceChannels ..), putAlpha_matrix hm hchannels hr,
      putRgb_matrix (hm.putColours hchannels 3 r) hchannels (hc.replaceChannels ..)]
    exact ⟨_, (hm.putColours hchannels 0 c).putColours hchannels 3 r, rfl,
      congrArg Value.matrix (replaceChannels_comm hdisjoint).symm⟩

end Matrix.Valid

/-- Reading and replacing channels obey the laws in every valid matrix. -/
theorem channel_laws (hm : m.Valid) : m.ChannelLaws ∧ (m.channels = 4 → m.ColourLaws) :=
  ⟨hm.channelLaws, hm.colourLaws⟩

/-- The laws at a pixel of four channels. -/
theorem channel_laws_pixel :
    (((Value.matrix ⟨.bgra, 1, 1, 4, #[1, 2, 3, 4]⟩).putChannel 2
        (.matrix ⟨.gray, 1, 1, 1, #[9]⟩)).channel 2).SameMatrix
          (.matrix ⟨.plain, 1, 1, 1, #[9]⟩) ∧
      ((Value.matrix ⟨.bgra, 1, 1, 4, #[1, 2, 3, 4]⟩).putRgb
        (.matrix ⟨.hsv, 1, 1, 3, #[5, 6, 7]⟩)).rgb.SameMatrix
          (.matrix ⟨.bgr, 1, 1, 3, #[5, 6, 7]⟩) := by
  have hm : Matrix.Valid ⟨.bgra, 1, 1, 4, #[1, 2, 3, 4]⟩ :=
    ⟨by decide, by decide, rfl, rfl, nofun⟩
  have hr : Matrix.Fits ⟨.gray, 1, 1, 1, #[9]⟩ ⟨.bgra, 1, 1, 4, #[1, 2, 3, 4]⟩ 1 :=
    ⟨⟨by decide, by decide, rfl, rfl, nofun⟩, rfl, rfl⟩
  have hc : Matrix.Fits ⟨.hsv, 1, 1, 3, #[5, 6, 7]⟩ ⟨.bgra, 1, 1, 4, #[1, 2, 3, 4]⟩ 3 :=
    ⟨⟨by decide, by decide, rfl, rfl, nofun⟩, rfl, rfl⟩
  have htwo : Matrix.HasChannel ⟨.bgra, 1, 1, 4, #[1, 2, 3, 4]⟩ 2 2 := ⟨by decide, by decide⟩
  obtain ⟨hchannels, hcolours⟩ := channel_laws hm
  exact ⟨hchannels.get_put htwo htwo hr, (hcolours rfl).rgb_putRgb hc⟩

end PixelCalc
