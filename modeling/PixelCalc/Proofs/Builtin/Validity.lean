import PixelCalc.Builtin.Library
import PixelCalc.Proofs.Value.Validity

/-!
# Built-in functions keep matrices valid

A body of a function is a sequence of steps, each of which may end it with a fault. `Ensures P x`
says of a step that what it hands on satisfies `P`, and that its fault, if it ends there, is none of
a construction; the rules for sequences follow the bodies.

- `Ensures.bind`: the rule of a sequence.
- `ensures_run`: on valid arguments every body hands on a valid value.
- `valid_invoke`: calls make valid values of valid arguments.
-/

namespace PixelCalc
namespace Builtin

/-! ### Steps of a body -/

/-- The step hands on what satisfies `P`, or ends with a fault that is none of a construction. -/
def Ensures {α : Type} (P : α → Prop) : Except Fault α → Prop
  | .ok a => P a
  | .error fault => fault.ofConstruction = false

section

variable {α β : Type} {P : α → Prop} {Q : β → Prop}

/-- The rule of a sequence: the next step may rely on what the step before hands on. -/
theorem Ensures.bind {x : Except Fault α} {f : α → Except Fault β} (hx : Ensures P x)
    (hf : ∀ a, P a → Ensures Q (f a)) : Ensures Q (x >>= f) := by
  cases x with
  | ok a => exact hf a hx
  | error fault => exact hx

/-- The rule of a choice, with what was tested at hand in both branches. -/
theorem ensures_ite {c : Prop} [Decidable c] {x y : Except Fault α} (hx : c → Ensures P x)
    (hy : ¬ c → Ensures P y) : Ensures P (if c then x else y) := by
  by_cases h : c
  · rw [if_pos h]
    exact hx h
  · rw [if_neg h]
    exact hy h

end

/-! ### Arguments and results -/

/-- All arguments are valid. -/
def AllValid (args : List Value) : Prop :=
  ∀ v ∈ args, v.Valid

variable {f : Builtin} {args : List Value} {v : Value} {m reference : Matrix}

theorem AllValid.head (h : AllValid (v :: args)) : v.Valid :=
  h v List.mem_cons_self

theorem AllValid.tail (h : AllValid (v :: args)) : AllValid args :=
  fun w hw => h w (.tail _ hw)

/-- The argument of a function that takes one is valid. -/
theorem ensures_one (h : AllValid args) : Ensures Value.Valid (one f args) := by
  unfold one
  split
  · exact h.head
  · rfl

/-- So are both arguments of a function that takes two. -/
theorem ensures_two (h : AllValid args) :
    Ensures (fun vs => vs.1.Valid ∧ vs.2.Valid) (two f args) := by
  unfold two
  split
  · exact ⟨h.head, h.tail.head⟩
  · rfl

/-- And the three arguments of a function that takes three. -/
theorem ensures_three (h : AllValid args) :
    Ensures (fun vs => vs.1.Valid ∧ vs.2.1.Valid ∧ vs.2.2.Valid) (three f args) := by
  unfold three
  split
  · exact ⟨h.head, h.tail.head, h.tail.tail.head⟩
  · rfl

/-- An argument that has to be a matrix is a valid one from here on. -/
theorem ensures_matrixArgument {parameter : String} (h : v.Valid) :
    Ensures Matrix.Valid (matrixArgument f parameter v) := by
  unfold matrixArgument
  split
  · exact h
  · rfl

theorem ensures_numberArgument {parameter : String} :
    Ensures (fun _ => True) (numberArgument f parameter v) := by
  unfold numberArgument
  split
  · trivial
  · rfl

theorem ensures_checkChannels {parameter : String} {channels : Nat} :
    Ensures (fun _ => m.channels = channels) (checkChannels f parameter m channels) :=
  ensures_ite (fun h => h) fun _ => rfl

theorem ensures_checkSize {parameter : String} :
    Ensures (fun _ => m.sameSize reference = true) (checkSize f parameter m reference) :=
  ensures_ite (fun h => h) fun _ => rfl

/-- A valid matrix passes the check, so its fault does not come up. -/
theorem ensures_finish (h : m.Valid) : Ensures Value.Valid (finish f m.check) := by
  rw [Matrix.check_of_valid h]
  exact h

/-- A construction that meets its assertions. -/
theorem ensures_built {P : Matrix → Prop} {x : Except Assertion Matrix}
    (h : ∃ m, x = .ok m ∧ P m) : Ensures P (built x) := by
  obtain ⟨m, rfl, hm⟩ := h
  exact hm

/-! ### Functions of single numbers -/

/-- The absolute value of a matrix is a map over its entries. -/
theorem ensures_runAbs (h : AllValid args) : Ensures Value.Valid (runAbs args) := by
  refine (ensures_one h).bind fun v hv => ?_
  cases v with
  | number x => trivial
  | matrix m => exact (ensures_built (hv.map _)).bind fun _ hm => hm
  | _ => rfl

theorem ensures_checkBounds {lower upper : Float} :
    Ensures (fun _ => True) (checkBounds lower upper) :=
  ensures_ite (fun _ => rfl) fun _ => trivial

theorem ensures_checkBoundShape {parameter : String} {bound : Matrix} :
    Ensures (fun _ => m.sameShape bound = true) (checkBoundShape m parameter bound) :=
  ensures_ite (fun h => h) fun _ => rfl

/-- All overloads return a number or a matrix made entry by entry. -/
theorem ensures_runClamp (h : AllValid args) : Ensures Value.Valid (runClamp args) := by
  refine (ensures_three h).bind fun vs hvs => ?_
  split
  · exact ensures_checkBounds.bind fun _ _ => trivial
  · exact ensures_checkBounds.bind fun _ _ =>
      (ensures_built (Matrix.Valid.map hvs.1 _)).bind fun _ hm => hm
  · obtain ⟨hm, hlower, hupper⟩ := hvs
    refine ensures_checkBoundShape.bind fun _ hshape => ?_
    refine ensures_checkBoundShape.bind fun _ hshape' => ?_
    refine (ensures_built (Matrix.Valid.zipWith hm hlower hshape _)).bind ?_
    rintro raised ⟨hraised, hsame⟩
    -- the upper bound was compared with the matrix itself, whose shape the raised one has
    have hraised' : raised.sameShape _ = true := Matrix.sameShape_trans hsame hshape'
    refine (ensures_built (Matrix.Valid.zipWith hraised hupper hraised' _)).bind ?_
    exact fun _ hm => hm.1
  all_goals rfl

/-- The extreme of numbers is a number, or an argument is none. -/
theorem ensures_extremeNumber {pick : Float → Float → Float} {x : Float} :
    Ensures (fun _ => True) (extremeNumber f pick x args) := by
  fun_induction extremeNumber f pick x args with
  | case1 => trivial
  | case2 _ _ _ ih => exact ih
  | case3 => rfl

/-- The extreme picked so far stays valid from one matrix to the next, by induction on them. -/
theorem ensures_extremeMatrix {pick : Float → Float → Float} (hm : m.Valid) (h : AllValid args) :
    Ensures Matrix.Valid (extremeMatrix f pick m args) := by
  induction args generalizing m with
  | nil => exact hm
  | cons v rest ih =>
    cases v with
    | matrix n =>
      refine ensures_ite (fun hshape => ?_) fun _ => rfl
      refine (ensures_built (hm.zipWith h.head hshape pick)).bind ?_
      rintro picked ⟨hpicked, -⟩
      exact ih hpicked h.tail
    | _ => rfl

/-- The extremes return a number or a matrix made entry by entry, whatever is picked. -/
theorem ensures_runExtreme {pick : Float → Float → Float} {reduce : Matrix → Float}
    (h : AllValid args) : Ensures Value.Valid (runExtreme f pick reduce args) := by
  unfold runExtreme
  split
  · rfl
  · exact ensures_extremeNumber.bind fun _ _ => trivial
  · trivial
  · exact (ensures_extremeMatrix h.head h.tail).bind fun _ hm => hm
  · rfl

/-- Scaling is a map over the entries. -/
theorem ensures_runNormalizeTo (h : AllValid args) :
    Ensures Value.Valid (runNormalizeTo args) := by
  refine (ensures_two h).bind ?_
  rintro ⟨mat, normMax⟩ ⟨hmat, -⟩
  refine (ensures_matrixArgument hmat).bind fun m hm => ?_
  refine ensures_numberArgument.bind fun target _ => ?_
  refine ensures_ite (fun _ => rfl) fun _ => ?_
  exact (ensures_built (hm.map _)).bind fun _ hm => hm

/-- Images keep their kind; plain matrices have channels that a kind of image has, too. -/
theorem imageKind_accepts (h : m.Valid)
    (hchannels : (m.channels == 1 || m.channels == 3 || m.channels == 4) = true) :
    (imageKind m).accepts m.channels = true ∧ (imageKind m = .mask → m.kind = .mask) := by
  unfold imageKind
  split
  · exact ⟨h.accepts, id⟩
  · simp only [Bool.or_eq_true, beq_iff_eq] at hchannels
    rcases hchannels with (hc | hc) | hc <;> rw [hc] <;> exact ⟨rfl, nofun⟩

/-- A matrix becomes an image if an image can have so many channels; its entries become bytes. -/
theorem ensures_runToImage (h : AllValid args) : Ensures Value.Valid (runToImage args) := by
  refine (ensures_one h).bind fun v hv => ?_
  refine (ensures_matrixArgument hv).bind fun m hm => ?_
  refine ensures_ite (fun hchannels => ?_) fun _ => rfl
  -- a mask stays one, so its entries have to be mask values after the rounding, too
  obtain ⟨haccepts, hmask⟩ := imageKind_accepts hm hchannels
  exact ensures_finish (hm.mapEntries_toByte haccepts hmask)

theorem ensures_runToMatrix (h : AllValid args) : Ensures Value.Valid (runToMatrix args) := by
  refine (ensures_one h).bind fun v hv => ?_
  refine (ensures_matrixArgument hv).bind fun m hm => ?_
  exact ensures_finish hm.wellFormed.retag_plain

/-! ### Functions of channels -/

theorem ensures_runGetChannelCount (h : AllValid args) :
    Ensures Value.Valid (runGetChannelCount args) := by
  refine (ensures_one h).bind fun v hv => ?_
  exact (ensures_matrixArgument hv).bind fun _ _ => trivial

/-- Behind the check the channel is one that the matrix has. -/
theorem ensures_channelIndex {x : Float} :
    Ensures (fun i => i < m.channels) (channelIndex f x m) := by
  unfold channelIndex
  split
  · exact ensures_ite (fun h => h) fun _ => rfl
  · rfl

theorem length_single (i : Nat) : (Span.single i).length = 1 :=
  Nat.add_sub_cancel_left i 1

theorem accepts_single (i : Nat) : MatrixKind.plain.accepts (Span.single i).length = true := by
  rw [length_single]
  rfl

/-- One channel is a plain matrix, for which one channel is enough. -/
theorem ensures_runGetChannel (h : AllValid args) : Ensures Value.Valid (runGetChannel args) := by
  refine (ensures_two h).bind ?_
  rintro ⟨mat, channel⟩ ⟨hmat, -⟩
  refine (ensures_matrixArgument hmat).bind fun m hm => ?_
  refine ensures_numberArgument.bind fun x _ => ?_
  refine ensures_channelIndex.bind fun i _ => ?_
  have hpart : (m.channelBlock .plain (.single i)).Valid :=
    hm.channelBlock (accepts_single i) nofun
  have hwf := hpart.wellFormed
  exact (ensures_built ⟨_, hwf.generic, hwf.retag_plain⟩).bind fun _ hm => hm

/-- The kind after a replacement accepts the channels that there were, and asks for no mask values.
-/
theorem kindAfterReplacing_accepts {kind : MatrixKind} {channels : Nat}
    (h : kind.accepts channels = true) :
    (kindAfterReplacing kind).accepts channels = true ∧ kindAfterReplacing kind ≠ .mask := by
  unfold kindAfterReplacing
  split
  · exact ⟨Matrix.plain_accepts_iff.mpr (MatrixKind.accepts_bounds h), nofun⟩
  · rename_i hkind
    exact ⟨h, hkind⟩

/-- A replacement keeps the sizes of the matrix. -/
theorem ensures_runReplaceChannel (h : AllValid args) :
    Ensures Value.Valid (runReplaceChannel args) := by
  refine (ensures_three h).bind ?_
  rintro ⟨mat, channel, replaceMat⟩ ⟨hmat, -, hreplaceMat⟩
  refine (ensures_matrixArgument hmat).bind fun m hm => ?_
  refine ensures_numberArgument.bind fun x _ => ?_
  refine (ensures_matrixArgument hreplaceMat).bind fun r hr => ?_
  refine ensures_channelIndex.bind fun i _ => ?_
  refine ensures_checkChannels.bind fun _ _ => ?_
  refine ensures_checkSize.bind fun _ _ => ?_
  -- the channel put in may hold any numbers, so a mask has become a plain matrix
  obtain ⟨haccepts, hkind⟩ := kindAfterReplacing_accepts hm.accepts
  exact ensures_finish (hm.replaceChannels haccepts hkind)

/-- All arguments are valid matrices from here on. -/
theorem ensures_matrixArguments (h : AllValid args) :
    Ensures (fun ms => ∀ m ∈ ms, m.Valid) (matrixArguments f args) := by
  induction args with
  | nil => exact fun _ hm => absurd hm List.not_mem_nil
  | cons v rest ih =>
    refine (ensures_matrixArgument h.head).bind fun m hm => ?_
    refine (ih h.tail).bind fun ms hms => ?_
    exact List.forall_mem_cons.mpr ⟨hm, hms⟩

theorem ensures_checkSizes {rest : List Matrix} :
    Ensures (fun _ => True) (checkSizes f m rest) := by
  induction rest with
  | nil => trivial
  | cons n rest ih => exact ensures_checkSize.bind fun _ _ => ih

/-- Matrices side by side stay well-formed as long as they have at most four channels in all. -/
theorem wellFormed_foldl_beside {rest : List Matrix} (hm : m.WellFormed)
    (htotal : m.channels + totalChannels rest ≤ 4) :
    (rest.foldl Matrix.beside m).WellFormed := by
  induction rest generalizing m with
  | nil => exact hm
  | cons n rest ih =>
    have htotal : m.channels + n.channels + totalChannels rest ≤ 4 := by
      rw [Nat.add_assoc]
      exact htotal
    exact ih (hm.beside (Nat.le_of_add_right_le htotal)) htotal

/-- Combined channels are at most four, which the body checks before it combines. -/
theorem ensures_runCombineChannels (h : AllValid args) :
    Ensures Value.Valid (runCombineChannels args) := by
  refine (ensures_matrixArguments h).bind fun ms hms => ?_
  split
  · rfl
  · rename_i first rest
    refine ensures_checkSizes.bind fun _ _ => ?_
    refine ensures_ite (fun _ => rfl) fun htotal => ?_
    have hwf : (rest.foldl Matrix.beside first).WellFormed :=
      wellFormed_foldl_beside (hms first List.mem_cons_self).wellFormed (Nat.not_lt.mp htotal)
    exact (ensures_built ⟨_, hwf.generic, hwf.retag_plain⟩).bind fun _ hm => hm

/-- Only masks have kinds that ask for mask values, and they have one channel. -/
theorem kind_ne_mask (h : m.Valid) (hchannels : m.channels = 4) : m.kind ≠ .mask := by
  intro hkind
  have haccepts := h.accepts
  rw [hkind, hchannels] at haccepts
  cases haccepts

/-- The colours are replaced in a matrix of four channels, which keeps its kind. -/
theorem ensures_runRgbReplace (h : AllValid args) : Ensures Value.Valid (runRgbReplace args) := by
  refine (ensures_two h).bind ?_
  rintro ⟨mat, rgb⟩ ⟨hmat, hrgb⟩
  refine (ensures_matrixArgument hmat).bind fun m hm => ?_
  refine (ensures_matrixArgument hrgb).bind fun r _ => ?_
  refine ensures_checkChannels.bind fun _ hchannels => ?_
  refine ensures_checkChannels.bind fun _ _ => ?_
  refine ensures_checkSize.bind fun _ _ => ?_
  exact ensures_finish (hm.replaceChannels hm.accepts (kind_ne_mask hm hchannels))

/-- The same for the alpha channel. -/
theorem ensures_runAlphaReplace (h : AllValid args) :
    Ensures Value.Valid (runAlphaReplace args) := by
  refine (ensures_two h).bind ?_
  rintro ⟨mat, alpha⟩ ⟨hmat, halpha⟩
  refine (ensures_matrixArgument hmat).bind fun m hm => ?_
  refine (ensures_matrixArgument halpha).bind fun r _ => ?_
  refine ensures_checkChannels.bind fun _ hchannels => ?_
  refine ensures_checkChannels.bind fun _ _ => ?_
  refine ensures_checkSize.bind fun _ _ => ?_
  exact ensures_finish (hm.replaceChannels hm.accepts (kind_ne_mask hm hchannels))

/-- A kind of four channels without its alpha channel accepts three, and is no mask. -/
theorem withoutAlpha_accepts {kind : MatrixKind} (h : kind.accepts 4 = true) :
    kind.withoutAlpha.accepts 3 = true ∧ kind.withoutAlpha ≠ .mask := by
  cases kind <;> first | exact ⟨rfl, nofun⟩ | cases h

/-- Three channels are returned as they are; of four the first three are a part. -/
theorem ensures_runGetRgb (h : AllValid args) : Ensures Value.Valid (runGetRgb args) := by
  refine (ensures_one h).bind fun v hv => ?_
  refine (ensures_matrixArgument hv).bind fun m hm => ?_
  refine ensures_ite (fun _ => hm) fun _ => ?_
  refine ensures_ite (fun hchannels => ?_) fun _ => rfl
  obtain ⟨haccepts, hkind⟩ := withoutAlpha_accepts (hchannels ▸ hm.accepts)
  exact ensures_finish (hm.channelBlock haccepts fun hmask => absurd hmask hkind)

/-! ### Parts -/

/-- An axis with an index is not empty. -/
theorem pos_of_indexOn? {x : Float} {len i : Nat} (h : indexOn? x len = some i) : 0 < len := by
  unfold indexOn? at h
  split at h
  · split at h
    · omega
    · cases h
  · split at h
    · omega
    · cases h
  · cases h

/-- A selection covers at least one index, and no more than the axis has. -/
theorem ensures_select {axis : Axis} {len : Nat} :
    Ensures (fun s => 0 < s.toSpan.length ∧ s.toSpan.length ≤ len) (select axis len v) := by
  unfold select
  split
  · split
    · rename_i i hi
      show 0 < (Span.single i).length ∧ (Span.single i).length ≤ len
      rw [length_single]
      exact ⟨Nat.one_pos, pos_of_indexOn? hi⟩
    · rfl
  · split
    · rename_i s hs
      obtain ⟨hstart, hstop⟩ := IndexRange.resolve?_bounds hs
      exact ⟨Nat.sub_pos_of_lt hstart, Nat.le_trans (Nat.sub_le _ _) hstop⟩
    · rfl
  · rfl

/-- A part has a kind that accepts its channels, and is a mask only if it is part of one. -/
theorem partKind_accepts {kind : MatrixKind} {channels : Nat} (hpos : 0 < channels)
    (hle : channels ≤ 4) :
    (partKind kind channels).accepts channels = true ∧
      (partKind kind channels = .mask → kind = .mask) := by
  unfold partKind
  split
  · rename_i haccepts
    exact ⟨haccepts, id⟩
  · exact ⟨Matrix.plain_accepts_iff.mpr ⟨hpos, hle⟩, nofun⟩

/-- A part of a valid matrix is a number or a valid matrix, given that the selections cover
something. -/
theorem ensures_partOf {y x channel : Selection} (hm : m.Valid) (hy : 0 < y.toSpan.length)
    (hx : 0 < x.toSpan.length) (hpos : 0 < channel.toSpan.length)
    (hle : channel.toSpan.length ≤ m.channels) :
    Ensures Value.Valid (partOf m y x channel) := by
  unfold partOf
  split
  · split
    · trivial
    · rfl
  -- the part keeps its kind only if that accepts its channels, so only a part of a mask is one
  · obtain ⟨haccepts, hkind⟩ :=
      partKind_accepts hpos (Nat.le_trans hle (MatrixKind.accepts_bounds hm.accepts).2)
    exact ensures_finish (hm.block hy hx haccepts hkind)

/-- The selections are found axis by axis, and each covers at least one index. -/
theorem ensures_subMatOf {mat y : Value} {x? channel? : Option Value} (h : mat.Valid) :
    Ensures Value.Valid (subMatOf mat y x? channel?) := by
  refine (ensures_matrixArgument h).bind fun m hm => ?_
  refine ensures_select.bind fun y hy => ?_
  refine ensures_select.bind fun x hx => ?_
  refine ensures_select.bind fun channel hchannel => ?_
  exact ensures_partOf hm hy.1 hx.1 hchannel.1 hchannel.2

/-- With one to three selectors the part is one of those. -/
theorem ensures_runSubMat (h : AllValid args) : Ensures Value.Valid (runSubMat args) := by
  unfold runSubMat
  split
  · exact ensures_subMatOf h.head
  · exact ensures_subMatOf h.head
  · exact ensures_subMatOf h.head
  · rfl

/-! ### The library -/

/-- On valid arguments a function ends with a valid value or with a fault of its own making. -/
theorem ensures_run (f : Builtin) (h : AllValid args) : Ensures Value.Valid (f.run args) := by
  cases f with
  | abs => exact ensures_runAbs h
  | clamp => exact ensures_runClamp h
  | min => exact ensures_runExtreme h
  | max => exact ensures_runExtreme h
  | normalizeTo => exact ensures_runNormalizeTo h
  | getChannelCount => exact ensures_runGetChannelCount h
  | getChannel => exact ensures_runGetChannel h
  | replaceChannel => exact ensures_runReplaceChannel h
  | combineChannels => exact ensures_runCombineChannels h
  | rgbReplace => exact ensures_runRgbReplace h
  | alphaReplace => exact ensures_runAlphaReplace h
  | getRgb => exact ensures_runGetRgb h
  | toImage => exact ensures_runToImage h
  | toMatrix => exact ensures_runToMatrix h
  | subMat => exact ensures_runSubMat h

/-- Calls keep validity, whatever faults are among the arguments. -/
theorem valid_invoke (f : Builtin) (h : AllValid args) : (f.invoke args).Valid := by
  have hrun := f.ensures_run h
  unfold invoke
  split
  · trivial
  · cases hresult : f.run args with
    | ok v =>
      rw [hresult] at hrun
      exact hrun
    | error fault => trivial

end Builtin
end PixelCalc
