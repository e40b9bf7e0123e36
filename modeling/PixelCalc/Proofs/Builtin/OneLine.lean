import PixelCalc.Proofs.Builtin.Validity
import PixelCalc.Proofs.Value.OneLine

/-!
# Faults of built-in functions are one line

A built-in function ends with a number or a matrix, which are one line in any case, or with a fault.
Such a fault quotes parameters of the function and arguments of the call, so it is one line if the
arguments are.

- `quiet_argumentType`, `quiet_mistyped`: the fault of an argument.
- `yields_run`: what the bodies end with.
- `oneLine_invoke`: calls make values of one line of such values.
-/

namespace PixelCalc
namespace Builtin

open Text

/-- The step ends with a result or with a fault of one line. -/
def Speaks {α : Type} (x : Except Fault α) : Prop :=
  Yields (fun _ => True) Fault.Quiet x

/-- All arguments are one line. -/
def AllOneLine (args : List Value) : Prop :=
  ∀ v ∈ args, v.OneLine

variable {f : Builtin} {parameter received expected : String} {args : List Value} {v : Value}
  {m reference : Matrix}

theorem AllOneLine.head (h : AllOneLine (v :: args)) : v.OneLine :=
  h v List.mem_cons_self

theorem AllOneLine.tail (h : AllOneLine (v :: args)) : AllOneLine args :=
  fun w hw => h w (.tail _ hw)

/-! ### Arguments -/

/-- The fault of a mistyped argument quotes three texts, and no others. -/
theorem quiet_argumentType (hparameter : OneLine parameter.toList)
    (hreceived : OneLine received.toList) (hexpected : OneLine expected.toList) :
    (Fault.argumentType f parameter received expected).Quiet := by
  simp [Fault.Quiet, Fault.quoted, hparameter, hreceived, hexpected]

theorem quiet_mistyped (hparameter : OneLine parameter.toList) (hv : v.OneLine)
    (hexpected : OneLine expected.toList) :
    (Fault.argumentType f parameter v.text expected).Quiet :=
  quiet_argumentType hparameter (Value.oneLine_text_iff.mpr hv) hexpected

theorem quiet_argumentCount (f : Builtin) (given : Nat) : (Fault.argumentCount f given).Quiet :=
  Fault.quiet_of_quoted rfl

/-- Functions that take one argument receive it, or say how many they take. -/
theorem yields_one (h : AllOneLine args) : Yields Value.OneLine Fault.Quiet (one f args) := by
  unfold one
  split
  · exact h.head
  · exact quiet_argumentCount f _

/-- Functions that take two arguments receive both. -/
theorem yields_two (h : AllOneLine args) :
    Yields (fun vs => vs.1.OneLine ∧ vs.2.OneLine) Fault.Quiet (two f args) := by
  unfold two
  split
  · exact ⟨h.head, h.tail.head⟩
  · exact quiet_argumentCount f _

/-- Functions that take three arguments receive all of them. -/
theorem yields_three (h : AllOneLine args) :
    Yields (fun vs => vs.1.OneLine ∧ vs.2.1.OneLine ∧ vs.2.2.OneLine) Fault.Quiet
      (three f args) := by
  unfold three
  split
  · exact ⟨h.head, h.tail.head, h.tail.tail.head⟩
  · exact quiet_argumentCount f _

/-- The message about an argument that is no matrix quotes the argument itself, so it depends on the
argument. -/
theorem speaks_matrixArgument (hparameter : OneLine parameter.toList) (h : v.OneLine) :
    Speaks (matrixArgument f parameter v) := by
  unfold matrixArgument
  split
  · trivial
  · exact quiet_mistyped hparameter h (by simp)

/-- The message about an argument that is no number quotes the argument itself. -/
theorem speaks_numberArgument (hparameter : OneLine parameter.toList) (h : v.OneLine) :
    Speaks (numberArgument f parameter v) := by
  unfold numberArgument
  split
  · trivial
  · exact quiet_mistyped hparameter h (by simp)

/-- The message about channels quotes the sizes of the matrix. -/
theorem speaks_checkChannels (hparameter : OneLine parameter.toList) {channels : Nat} :
    Speaks (checkChannels f parameter m channels) :=
  yields_ite (fun _ => trivial) fun _ => quiet_argumentType hparameter m.oneLine_text (by simp)

theorem speaks_checkSize (hparameter : OneLine parameter.toList) :
    Speaks (checkSize f parameter m reference) :=
  yields_ite (fun _ => trivial) fun _ => by simp [Yields, Fault.Quiet, Fault.quoted, hparameter]

/-- A matrix that is made up of others is a value on one line; the message of a matrix error is a
fixed text with numbers in it. -/
theorem yields_finish (x : Except MatrixError Matrix) :
    Yields Value.OneLine Fault.Quiet (finish f x) := by
  cases x with
  | ok m => trivial
  | error e => exact Fault.quiet_of_quoted rfl

theorem speaks_built (x : Except Assertion Matrix) : Speaks (built x) := by
  cases x with
  | ok m => trivial
  | error a => exact Fault.quiet_of_quoted rfl

/-! ### Functions of single numbers -/

/-- The absolute value speaks on one line. -/
theorem yields_runAbs (h : AllOneLine args) : Yields Value.OneLine Fault.Quiet (runAbs args) := by
  refine (yields_one h).bind fun v hv => ?_
  split
  · trivial
  · exact (speaks_built _).bind fun _ _ => trivial
  · exact quiet_mistyped (by simp) hv (by simp)

theorem speaks_checkBounds (lower upper : Float) : Speaks (checkBounds lower upper) :=
  yields_ite (fun _ => Fault.quiet_of_quoted rfl) fun _ => trivial

theorem speaks_checkBoundShape (hparameter : OneLine parameter.toList) {bound : Matrix} :
    Speaks (checkBoundShape m parameter bound) :=
  yields_ite (fun _ => trivial) fun _ => by simp [Yields, Fault.Quiet, Fault.quoted, hparameter]

/-- Every overload of the clamp speaks on one line. -/
theorem yields_runClamp (h : AllOneLine args) :
    Yields Value.OneLine Fault.Quiet (runClamp args) := by
  refine (yields_three h).bind fun vs hvs => ?_
  obtain ⟨hvalue, hlower, hupper⟩ := hvs
  -- three overloads with checks of their own, then the types that are refused, each with the
  -- argument at fault
  split
  · exact (speaks_checkBounds _ _).bind fun _ _ => trivial
  · exact (speaks_checkBounds _ _).bind fun _ _ => (speaks_built _).bind fun _ _ => trivial
  · refine (speaks_checkBoundShape (by simp)).bind fun _ _ => ?_
    refine (speaks_checkBoundShape (by simp)).bind fun _ _ => ?_
    exact (speaks_built _).bind fun _ _ => (speaks_built _).bind fun _ _ => trivial
  · exact quiet_mistyped (by simp) hupper (by simp)
  · exact quiet_mistyped (by simp) hlower (by simp)
  · exact quiet_mistyped (by simp) hupper (by simp)
  · exact quiet_mistyped (by simp) hupper (by simp)
  · exact quiet_mistyped (by simp) hlower (by simp)
  · exact quiet_mistyped (by simp) hvalue (by simp)

/-- Among numbers an argument of another type is quoted. -/
theorem speaks_extremeNumber {pick : Float → Float → Float} {x : Float} (h : AllOneLine args) :
    Speaks (extremeNumber f pick x args) := by
  fun_induction extremeNumber f pick x args with
  | case1 => trivial
  | case2 _ _ _ ih => exact ih h.tail
  | case3 => exact quiet_mistyped (by simp) h.head (by simp)

/-- Among matrices an argument of another type or shape is quoted. -/
theorem speaks_extremeMatrix {pick : Float → Float → Float} (h : AllOneLine args) :
    Speaks (extremeMatrix f pick m args) := by
  fun_induction extremeMatrix f pick m args with
  | case1 => trivial
  | case2 _ _ _ _ ih => exact (speaks_built _).bind fun picked _ => ih picked h.tail
  | case3 => simp [Speaks, Yields, Fault.Quiet, Fault.quoted]
  | case4 => exact quiet_mistyped (by simp) h.head (by simp)

/-- The extremes speak on one line, over numbers and over matrices. -/
theorem yields_runExtreme {pick : Float → Float → Float} {reduce : Matrix → Float}
    (h : AllOneLine args) :
    Yields Value.OneLine Fault.Quiet (runExtreme f pick reduce args) := by
  unfold runExtreme
  split
  · exact quiet_argumentCount f _
  · exact (speaks_extremeNumber h.tail).bind fun _ _ => trivial
  · trivial
  · exact (speaks_extremeMatrix h.tail).bind fun _ _ => trivial
  · exact quiet_mistyped (by simp) h.head (by simp)

/-- Scaling speaks on one line. -/
theorem yields_runNormalizeTo (h : AllOneLine args) :
    Yields Value.OneLine Fault.Quiet (runNormalizeTo args) := by
  refine (yields_two h).bind ?_
  rintro ⟨mat, normMax⟩ ⟨hmat, hnormMax⟩
  refine (speaks_matrixArgument (by simp) hmat).bind fun m _ => ?_
  refine (speaks_numberArgument (by simp) hnormMax).bind fun target _ => ?_
  refine yields_ite (fun _ => ?_) fun _ => ?_
  · exact List.forall_mem_singleton.mpr m.oneLine_text
  · exact (speaks_built _).bind fun _ _ => trivial

theorem yields_runToImage (h : AllOneLine args) :
    Yields Value.OneLine Fault.Quiet (runToImage args) := by
  refine (yields_one h).bind fun v hv => ?_
  refine (speaks_matrixArgument (by simp) hv).bind fun m _ => ?_
  refine yields_ite (fun _ => yields_finish _) fun _ => ?_
  exact quiet_argumentType (by simp) m.oneLine_text (by simp)

theorem yields_runToMatrix (h : AllOneLine args) :
    Yields Value.OneLine Fault.Quiet (runToMatrix args) := by
  refine (yields_one h).bind fun v hv => ?_
  exact (speaks_matrixArgument (by simp) hv).bind fun m _ => yields_finish _

/-! ### Functions of channels -/

theorem yields_runGetChannelCount (h : AllOneLine args) :
    Yields Value.OneLine Fault.Quiet (runGetChannelCount args) := by
  refine (yields_one h).bind fun v hv => ?_
  exact (speaks_matrixArgument (by simp) hv).bind fun _ _ => trivial

/-- The message about a channel that is not there quotes numbers only. -/
theorem speaks_channelIndex {x : Float} : Speaks (channelIndex f x m) := by
  have hquiet : (Fault.noChannel f x m.text m.channels).Quiet :=
    List.forall_mem_singleton.mpr m.oneLine_text
  unfold channelIndex
  split
  · exact yields_ite (fun _ => trivial) fun _ => hquiet
  · exact hquiet

theorem yields_runGetChannel (h : AllOneLine args) :
    Yields Value.OneLine Fault.Quiet (runGetChannel args) := by
  refine (yields_two h).bind ?_
  rintro ⟨mat, channel⟩ ⟨hmat, hchannel⟩
  refine (speaks_matrixArgument (by simp) hmat).bind fun m _ => ?_
  refine (speaks_numberArgument (by simp) hchannel).bind fun x _ => ?_
  refine speaks_channelIndex.bind fun i _ => ?_
  exact (speaks_built _).bind fun _ _ => trivial

theorem yields_runReplaceChannel (h : AllOneLine args) :
    Yields Value.OneLine Fault.Quiet (runReplaceChannel args) := by
  refine (yields_three h).bind ?_
  rintro ⟨mat, channel, replaceMat⟩ ⟨hmat, hchannel, hreplaceMat⟩
  refine (speaks_matrixArgument (by simp) hmat).bind fun m _ => ?_
  refine (speaks_numberArgument (by simp) hchannel).bind fun x _ => ?_
  refine (speaks_matrixArgument (by simp) hreplaceMat).bind fun r _ => ?_
  refine speaks_channelIndex.bind fun i _ => ?_
  refine (speaks_checkChannels (by simp)).bind fun _ _ => ?_
  exact (speaks_checkSize (by simp)).bind fun _ _ => yields_finish _

/-- The first argument that is no matrix is quoted. -/
theorem speaks_matrixArguments (h : AllOneLine args) : Speaks (matrixArguments f args) := by
  induction args with
  | nil => trivial
  | cons v rest ih =>
    refine (speaks_matrixArgument (by simp) h.head).bind fun m _ => ?_
    exact (ih h.tail).bind fun ms _ => trivial

theorem speaks_checkSizes {rest : List Matrix} : Speaks (checkSizes f m rest) := by
  induction rest with
  | nil => trivial
  | cons n rest ih => exact (speaks_checkSize (by simp)).bind fun _ _ => ih

/-- Combining speaks on one line, also where it is given nothing. -/
theorem yields_runCombineChannels (h : AllOneLine args) :
    Yields Value.OneLine Fault.Quiet (runCombineChannels args) := by
  refine (speaks_matrixArguments h).bind fun ms _ => ?_
  split
  · exact quiet_argumentCount combineChannels 0
  · refine speaks_checkSizes.bind fun _ _ => ?_
    refine yields_ite (fun _ => Fault.quiet_of_quoted rfl) fun _ => ?_
    exact (speaks_built _).bind fun _ _ => trivial

theorem yields_runRgbReplace (h : AllOneLine args) :
    Yields Value.OneLine Fault.Quiet (runRgbReplace args) := by
  refine (yields_two h).bind ?_
  rintro ⟨mat, rgb⟩ ⟨hmat, hrgb⟩
  refine (speaks_matrixArgument (by simp) hmat).bind fun m _ => ?_
  refine (speaks_matrixArgument (by simp) hrgb).bind fun r _ => ?_
  refine (speaks_checkChannels (by simp)).bind fun _ _ => ?_
  refine (speaks_checkChannels (by simp)).bind fun _ _ => ?_
  exact (speaks_checkSize (by simp)).bind fun _ _ => yields_finish _

theorem yields_runAlphaReplace (h : AllOneLine args) :
    Yields Value.OneLine Fault.Quiet (runAlphaReplace args) := by
  refine (yields_two h).bind ?_
  rintro ⟨mat, alpha⟩ ⟨hmat, halpha⟩
  refine (speaks_matrixArgument (by simp) hmat).bind fun m _ => ?_
  refine (speaks_matrixArgument (by simp) halpha).bind fun r _ => ?_
  refine (speaks_checkChannels (by simp)).bind fun _ _ => ?_
  refine (speaks_checkChannels (by simp)).bind fun _ _ => ?_
  exact (speaks_checkSize (by simp)).bind fun _ _ => yields_finish _

theorem yields_runGetRgb (h : AllOneLine args) :
    Yields Value.OneLine Fault.Quiet (runGetRgb args) := by
  refine (yields_one h).bind fun v hv => ?_
  refine (speaks_matrixArgument (by simp) hv).bind fun m _ => ?_
  refine yields_ite (fun _ => trivial) fun _ => ?_
  refine yields_ite (fun _ => yields_finish _) fun _ => ?_
  exact quiet_argumentType (by simp) m.oneLine_text (by simp)

/-! ### Parts -/

/-- A selector of another type is quoted; one that selects nothing on the axis is quoted as a number
or a range. -/
theorem speaks_select (axis : Axis) (len : Nat) (h : v.OneLine) :
    Speaks (select axis len v) := by
  unfold select
  split
  · split
    · trivial
    · exact List.forall_mem_singleton.mpr (oneLine_plainText _)
  · split
    · trivial
    · exact List.forall_mem_singleton.mpr (IndexRange.oneLine_text _)
  · exact quiet_mistyped axis.oneLine_parameter h (by simp)

/-- A missing selector is a range. -/
theorem speaks_selectOr (axis : Axis) (len : Nat) {selector? : Option Value}
    (h : ∀ v ∈ selector?, v.OneLine) : Speaks (selectOr axis len selector?) := by
  cases selector? with
  | none => exact speaks_select axis len trivial
  | some v => exact speaks_select axis len (h v rfl)

/-- A part is a number or a matrix, or there is a message of fixed form. -/
theorem yields_partOf (m : Matrix) (y x channel : Selection) :
    Yields Value.OneLine Fault.Quiet (partOf m y x channel) := by
  unfold partOf
  split
  · split
    · trivial
    · exact Fault.quiet_of_quoted rfl
  · exact yields_finish _

/-- A part by selectors, each of which is there or left out. -/
theorem yields_subMatOf {mat y : Value} {x? channel? : Option Value} (hmat : mat.OneLine)
    (hy : y.OneLine) (hx : ∀ v ∈ x?, v.OneLine) (hchannel : ∀ v ∈ channel?, v.OneLine) :
    Yields Value.OneLine Fault.Quiet (subMatOf mat y x? channel?) := by
  refine (speaks_matrixArgument (by simp) hmat).bind fun m _ => ?_
  refine (speaks_select .y m.rows hy).bind fun _ _ => ?_
  refine (speaks_selectOr .x m.cols hx).bind fun _ _ => ?_
  exact (speaks_selectOr .channel m.channels hchannel).bind fun _ _ => yields_partOf m _ _ _

/-- A part speaks on one line, with one to three selectors. -/
theorem yields_runSubMat (h : AllOneLine args) :
    Yields Value.OneLine Fault.Quiet (runSubMat args) := by
  have hnone : ∀ w ∈ (none : Option Value), w.OneLine :=
    fun w hw => absurd hw (Option.not_mem_none w)
  have hsome {v : Value} (hv : v.OneLine) : ∀ w ∈ some v, w.OneLine := by
    rintro w ⟨⟩
    exact hv
  unfold runSubMat
  split
  · exact yields_subMatOf h.head h.tail.head hnone hnone
  · exact yields_subMatOf h.head h.tail.head (hsome h.tail.tail.head) hnone
  · exact yields_subMatOf h.head h.tail.head (hsome h.tail.tail.head)
      (hsome h.tail.tail.tail.head)
  · exact quiet_argumentCount subMat _

/-! ### The library -/

/-- On arguments of one line a function ends with a value of one line, or with a fault that quotes
texts of one line. -/
theorem yields_run (f : Builtin) (h : AllOneLine args) :
    Yields Value.OneLine Fault.Quiet (f.run args) := by
  cases f with
  | abs => exact yields_runAbs h
  | clamp => exact yields_runClamp h
  | min => exact yields_runExtreme h
  | max => exact yields_runExtreme h
  | normalizeTo => exact yields_runNormalizeTo h
  | getChannelCount => exact yields_runGetChannelCount h
  | getChannel => exact yields_runGetChannel h
  | replaceChannel => exact yields_runReplaceChannel h
  | combineChannels => exact yields_runCombineChannels h
  | rgbReplace => exact yields_runRgbReplace h
  | alphaReplace => exact yields_runAlphaReplace h
  | getRgb => exact yields_runGetRgb h
  | toImage => exact yields_runToImage h
  | toMatrix => exact yields_runToMatrix h
  | subMat => exact yields_runSubMat h

/-- The fault that a call passes on is one of its arguments. -/
theorem oneLine_firstFault? {fault : Fault} (h : AllOneLine args)
    (hfault : firstFault? args = some fault) : (Value.error fault).OneLine := by
  fun_induction firstFault? args with
  | case1 => cases hfault
  | case2 =>
    cases hfault
    exact h.head
  | case3 _ _ _ ih => exact ih h.tail hfault

/-- The value of a call is one line if the arguments are. -/
theorem oneLine_invoke (f : Builtin) (h : AllOneLine args) : (f.invoke args).OneLine := by
  have hrun := f.yields_run h
  unfold invoke
  split
  · rename_i hfault
    exact oneLine_firstFault? h hfault
  · split
    · rename_i hresult
      exact hrun.of_ok hresult
    · rename_i hresult
      exact Value.oneLine_error (hrun.of_error hresult)

end Builtin
end PixelCalc
