import PixelCalc.Proofs.Builtin.Results
import PixelCalc.Proofs.Matrix.Pointwise

/-!
# Holding a matrix between bounds

`Clamp` of a matrix with two numbers as bounds, and with two matrices, holds every entry between its
bounds in the same way. The overloads differ in one point: numbers that are no bounds, the lower one
above the upper one, are a fault, whereas the entries of two matrices are not compared.

- `Matrix.IsFilled`: one number everywhere.
- `invoke_clamp_numbers`, `invoke_clamp_matrices`: the two overloads on a matrix.
- `clamp_overloads`: where they agree, and where only one of them fails.
-/

namespace PixelCalc

/-- The matrix holds one number everywhere. -/
def Matrix.IsFilled (m : Matrix) (x : Float) : Prop :=
  ∀ y ∈ m.data, y = x

/-- Every entry of a filled matrix is the number that fills it. -/
theorem Matrix.IsFilled.entry_eq {m : Matrix} {x : Float} {row col channel : Nat}
    (h : m.IsFilled x) (hm : m.Valid) (hrow : row < m.rows) (hcol : col < m.cols)
    (hchannel : channel < m.channels) : m.entry row col channel = x := by
  rw [entry_eq_getElem (index_lt_size hm.size hrow hcol hchannel)]
  exact h _ (Array.getElem_mem _)

namespace Builtin

variable {m lower upper : Matrix} {x y : Float}

/-- Numbers as bounds are a fault exactly if the lower one is above the upper one. -/
theorem invoke_clamp_numbers (hm : m.Valid) :
    (y < x → clamp.invoke [.matrix m, .number x, .number y] = .error (.boundsInverted x y)) ∧
    (¬ y < x → ∃ out, clamp.invoke [.matrix m, .number x, .number y] = .matrix out ∧
      out.IsLift m fun row col channel => Binary64.clamp (m.entry row col channel) x y) := by
  have hvalues : ∀ v ∈ [Value.matrix m, .number x, .number y], v.isError = false := by
    simp [Value.isError]
  -- this overload compares its bounds before anything else
  have hbody : clamp.run [.matrix m, .number x, .number y] = (do
      checkBounds x y
      return .matrix (← built (m.map fun z => Binary64.clamp z x y))) := rfl
  rw [checkBounds] at hbody
  constructor
  · intro hinverted
    rw [if_pos hinverted] at hbody
    exact invoke_of_fault hvalues hbody
  · intro hordered
    obtain ⟨out, hout, hlift⟩ := hm.isLift_map fun z => Binary64.clamp z x y
    rw [if_neg hordered, hout] at hbody
    exact ⟨out, invoke_of_run hvalues hbody, hlift⟩

/-- Matrices of one shape are bounds, whatever their entries are. -/
theorem invoke_clamp_matrices (hm : m.Valid) (hlower : lower.Valid) (hupper : upper.Valid)
    (hshape : m.sameShape lower = true) (hshape' : m.sameShape upper = true) :
    ∃ out, clamp.invoke [.matrix m, .matrix lower, .matrix upper] = .matrix out ∧
      out.IsLift m fun row col channel => Binary64.clamp (m.entry row col channel)
        (lower.entry row col channel) (upper.entry row col channel) := by
  have hvalues : ∀ v ∈ [Value.matrix m, .matrix lower, .matrix upper], v.isError = false := by
    simp [Value.isError]
  obtain ⟨raised, hraised, hraisedLift⟩ := hm.isLift_zipWith hlower hshape Binary64.larger
  obtain ⟨out, hout, hlift⟩ := hraisedLift.valid.isLift_zipWith hupper
    (Matrix.sameShape_trans hraisedLift.shape hshape') Binary64.smaller
  -- this overload checks both shapes and compares nothing
  have hbody : clamp.run [.matrix m, .matrix lower, .matrix upper] = (do
      checkBoundShape m "lowerBound" lower
      checkBoundShape m "upperBound" upper
      let raised ← built (m.zipWith Binary64.larger lower)
      return .matrix (← built (raised.zipWith Binary64.smaller upper))) := rfl
  rw [checkBoundShape, if_pos hshape, checkBoundShape, if_pos hshape', hraised] at hbody
  refine ⟨out, invoke_of_run hvalues (hbody.trans ?_), hlift.congr hraisedLift.shape ?_⟩
  · show (do return Value.matrix (← built (raised.zipWith Binary64.smaller upper))) = _
    rw [hout]
    rfl
  · intro row col channel hrow hcol hchannel
    rw [hraisedLift.entry row col channel hrow hcol hchannel]
    rfl

/-- With numbers as bounds, `Clamp` of a matrix fails exactly if they are inverted. With matrices of
its shape as bounds it never fails, and holds every entry between the entries at its place. So the
two agree on one pair of numbers everywhere, except for inverted ones, which only numbers as bounds
reject. -/
theorem clamp_overloads (hm : m.Valid) :
    (∀ x y, (clamp.invoke [.matrix m, .number x, .number y]).isError = true ↔ y < x) ∧
    ∀ lower upper : Matrix, lower.Valid → upper.Valid → m.sameShape lower = true →
      m.sameShape upper = true →
      ∃ out, clamp.invoke [.matrix m, .matrix lower, .matrix upper] = .matrix out ∧
        (out.IsLift m fun row col channel => Binary64.clamp (m.entry row col channel)
          (lower.entry row col channel) (upper.entry row col channel)) ∧
        ∀ x y, lower.IsFilled x → upper.IsFilled y →
          (¬ y < x → clamp.invoke [.matrix m, .number x, .number y] = .matrix out) ∧
          (y < x →
            clamp.invoke [.matrix m, .number x, .number y] = .error (.boundsInverted x y)) := by
  refine ⟨fun x y => ?_, fun lower upper hlower hupper hshape hshape' => ?_⟩
  · obtain ⟨hinverted, hordered⟩ := invoke_clamp_numbers (x := x) (y := y) hm
    by_cases h : y < x
    · rw [hinverted h]
      exact iff_of_true rfl h
    · obtain ⟨out, hout, -⟩ := hordered h
      rw [hout]
      exact iff_of_false nofun h
  · obtain ⟨out, hout, hlift⟩ := invoke_clamp_matrices hm hlower hupper hshape hshape'
    refine ⟨out, hout, hlift, fun x y hx hy => ?_⟩
    obtain ⟨hinverted, hordered⟩ := invoke_clamp_numbers (x := x) (y := y) hm
    refine ⟨fun h => ?_, hinverted⟩
    obtain ⟨out', hout', hlift'⟩ := hordered h
    obtain ⟨hrows, hcols, hchannels⟩ := Matrix.sameShape_iff.mp hshape
    obtain ⟨hrows', hcols', hchannels'⟩ := Matrix.sameShape_iff.mp hshape'
    have hsame := hlift.congr (Matrix.sameShape_refl m)
      fun row col channel hrow hcol hchannel => by
        rw [hx.entry_eq hlower (hrows ▸ hrow) (hcols ▸ hcol) (hchannels ▸ hchannel),
          hy.entry_eq hupper (hrows' ▸ hrow) (hcols' ▸ hcol) (hchannels' ▸ hchannel)]
    rw [hout', hlift'.unique hsame]

/-- Two pixels held between 2 and 4, given as numbers and as matrices. -/
theorem clamp_overloads_held :
    ∃ out : Matrix,
      clamp.invoke [.matrix ⟨.gray, 1, 2, 1, #[1, 5]⟩, .number 2, .number 4] = .matrix out ∧
      clamp.invoke [.matrix ⟨.gray, 1, 2, 1, #[1, 5]⟩, .matrix ⟨.plain, 1, 2, 1, #[2, 2]⟩,
        .matrix ⟨.gray, 1, 2, 1, #[4, 4]⟩] = .matrix out ∧
      out.entry 0 0 0 = 2 ∧ out.entry 0 1 0 = 4 := by
  have hm : Matrix.Valid ⟨.gray, 1, 2, 1, #[1, 5]⟩ := ⟨by decide, by decide, rfl, rfl, nofun⟩
  have hlower : Matrix.Valid ⟨.plain, 1, 2, 1, #[2, 2]⟩ := ⟨by decide, by decide, rfl, rfl, nofun⟩
  have hupper : Matrix.Valid ⟨.gray, 1, 2, 1, #[4, 4]⟩ := ⟨by decide, by decide, rfl, rfl, nofun⟩
  obtain ⟨out, hout, hlift, hfilled⟩ := (clamp_overloads hm).2 _ _ hlower hupper rfl rfl
  obtain ⟨hagree, -⟩ := hfilled 2 4 (by simp [Matrix.IsFilled]) (by simp [Matrix.IsFilled])
  refine ⟨out, hagree (by decide), hout, ?_, ?_⟩
  · exact (hlift.entry 0 0 0 (by decide) (by decide) (by decide)).trans (by decide)
  · exact (hlift.entry 0 1 0 (by decide) (by decide) (by decide)).trans (by decide)

/-- A lower bound 2 above an upper bound 0 is a fault if the bounds are numbers; if they are matrices
that hold these numbers, the upper bound is the result. -/
theorem clamp_inverted :
    Matrix.Valid ⟨.gray, 1, 1, 1, #[1]⟩ ∧ (0 : Float) < 2 ∧
    Matrix.IsFilled ⟨.gray, 1, 1, 1, #[2]⟩ 2 ∧ Matrix.IsFilled ⟨.gray, 1, 1, 1, #[0]⟩ 0 ∧
    (clamp.invoke [.matrix ⟨.gray, 1, 1, 1, #[1]⟩, .number 2, .number 0]).isError = true ∧
    ∃ out : Matrix, clamp.invoke [.matrix ⟨.gray, 1, 1, 1, #[1]⟩, .matrix ⟨.gray, 1, 1, 1, #[2]⟩,
      .matrix ⟨.gray, 1, 1, 1, #[0]⟩] = .matrix out ∧ out.entry 0 0 0 = 0 := by
  have hm : Matrix.Valid ⟨.gray, 1, 1, 1, #[1]⟩ := ⟨by decide, by decide, rfl, rfl, nofun⟩
  have hlower : Matrix.Valid ⟨.gray, 1, 1, 1, #[2]⟩ := ⟨by decide, by decide, rfl, rfl, nofun⟩
  have hupper : Matrix.Valid ⟨.gray, 1, 1, 1, #[0]⟩ := ⟨by decide, by decide, rfl, rfl, nofun⟩
  obtain ⟨out, hout, hlift⟩ := invoke_clamp_matrices hm hlower hupper rfl rfl
  refine ⟨hm, by decide, by simp [Matrix.IsFilled], by simp [Matrix.IsFilled], ?_, out, hout, ?_⟩
  · rw [(invoke_clamp_numbers hm).1 (by decide)]
    rfl
  · exact (hlift.entry 0 0 0 (by decide) (by decide) (by decide)).trans (by decide)

end Builtin

end PixelCalc
