import PixelCalc.Proofs.Binary64.Products
import PixelCalc.Proofs.Builtin.Extremes

/-!
# Scaling a matrix to a greatest entry

`NormalizeTo` multiplies every entry by the quotient of the target and the greatest entry. The
greatest entry becomes the greatest one of the result, unless its sign and that of the target are
opposite: then the scale is negative and reverses the order, and what was the greatest entry becomes
the least one. Only a greatest entry that is zero or infinite is a fault.

- `Matrix.IsGreatest`, `Matrix.IsLeast`: entries that no entry is above, or below.
- `Matrix.Valid.isGreatest`: the greatest entry of a matrix without NaN.
- `Matrix.IsGreatest.scale`: what becomes of it in a matrix that is scaled.
- `normalizeTo_greatest`: what becomes of it by `NormalizeTo`.
-/

namespace PixelCalc

open Builtin hiding min max
open Binary64 (Opposite)

variable {m : Matrix} {x y z : Float} {data : Array Float}

namespace Matrix

/-- The matrix holds no NaN. -/
def IsNumeric (m : Matrix) : Prop :=
  ∀ x ∈ m.data, x.isNaN = false

/-- An entry that no entry is above. -/
structure IsGreatest (m : Matrix) (x : Float) : Prop where
  mem : x ∈ m.data
  upper : ∀ y ∈ m.data, ¬ x < y

/-- An entry that no entry is below. -/
structure IsLeast (m : Matrix) (x : Float) : Prop where
  mem : x ∈ m.data
  lower : ∀ y ∈ m.data, ¬ y < x

/-- The greatest entry that the fold finds is one. -/
theorem Valid.isGreatest (hm : m.Valid) (hnumeric : m.IsNumeric) : m.IsGreatest m.greatest := by
  obtain ⟨x, xs, hentries⟩ := hm.exists_entries
  have hnumbers : ∀ y ∈ x :: xs, y.isNaN = false := fun y hy =>
    hnumeric y (Array.mem_toList_iff.mp (hentries ▸ hy))
  obtain ⟨hx, hxs⟩ := List.forall_mem_cons.mp hnumbers
  -- the seed of the fold is less than every number, so the fold may start with the first entry
  have hgreatest : m.greatest = xs.foldl Binary64.larger x := by
    rw [greatest, ← Array.foldl_toList, hentries]
    exact Binary64.picks_larger.foldl_eq ⟨x, List.mem_cons_self, hx⟩
  obtain ⟨hfirst, hrest⟩ := Binary64.place_foldl_larger hx hxs
  constructor
  · rw [hgreatest, ← Array.mem_toList_iff, hentries]
    exact Binary64.picks_larger.foldl_mem x xs
  · intro y hy
    rw [← Array.mem_toList_iff, hentries] at hy
    refine Binary64.not_lt_of_place_le fun _ _ => ?_
    rw [hgreatest]
    obtain rfl | hy := List.mem_cons.mp hy
    · exact hfirst
    · exact hrest y hy

/-- What a greatest entry becomes in a matrix that is scaled by `target / x`. -/
theorem IsGreatest.scale (h : m.IsGreatest x) (hnumeric : m.IsNumeric) (hx : (x == 0) = false)
    {out : Matrix} {target : Float} (hout : out.data = m.data.map (· * (target / x))) :
    (¬ Opposite target x → out.IsGreatest (x * (target / x))) ∧
      (Opposite target x → out.IsLeast (x * (target / x))) := by
  have hxnumber := hnumeric x h.mem
  have hrank : Binary64.rank x ≠ 0 := fun hzero =>
    Bool.eq_false_iff.mp hx (Binary64.beq_zero hxnumber hzero)
  have hmem : x * (target / x) ∈ out.data := by
    rw [hout]
    exact Array.mem_map.mpr ⟨x, h.mem, rfl⟩
  have hscaled : ∀ y ∈ out.data, ∃ z ∈ m.data, z * (target / x) = y := fun y hy =>
    Array.mem_map.mp (hout ▸ hy)
  constructor
  · refine fun hsigns => ⟨hmem, fun y hy => ?_⟩
    obtain ⟨z, hz, rfl⟩ := hscaled y hy
    exact (Binary64.not_lt_mul_div hxnumber (hnumeric z hz) (h.upper z hz) hrank).1 hsigns
  · refine fun hsigns => ⟨hmem, fun y hy => ?_⟩
    obtain ⟨z, hz, rfl⟩ := hscaled y hy
    exact (Binary64.not_lt_mul_div hxnumber (hnumeric z hz) (h.upper z hz) hrank).2 hsigns

end Matrix

/-- The body of `NormalizeTo`. -/
theorem run_normalizeTo (m : Matrix) (target : Float) :
    normalizeTo.run [.matrix m, .number target] =
      if m.greatest == 0 || !m.greatest.isFinite then
        .error (.noScale m.text m.greatest target)
      else (built (m.map fun x => x * (target / m.greatest))) >>= fun out => .ok (.matrix out) := by
  rfl

/-- A matrix without NaN is scaled, unless its greatest entry is zero or infinite. The greatest entry
becomes the greatest one, or the least one if the target is of the opposite sign. -/
theorem normalizeTo_greatest (hm : m.Valid) (hnumeric : m.IsNumeric) (target : Float) :
    m.IsGreatest m.greatest ∧
    ((m.greatest == 0) = true ∨ m.greatest.isFinite = false →
      normalizeTo.invoke [.matrix m, .number target] =
        .error (.noScale m.text m.greatest target)) ∧
    ((m.greatest == 0) = false → m.greatest.isFinite = true →
      ∃ out, normalizeTo.invoke [.matrix m, .number target] = .matrix out ∧
        (out.IsLift m fun row col channel =>
          m.entry row col channel * (target / m.greatest)) ∧
        (¬ Opposite target m.greatest →
          out.IsGreatest (m.greatest * (target / m.greatest))) ∧
        (Opposite target m.greatest →
          out.IsLeast (m.greatest * (target / m.greatest)))) := by
  have hgreatest := hm.isGreatest hnumeric
  have hvalues : ∀ v ∈ [Value.matrix m, .number target], v.isError = false := by
    simp [Value.isError]
  -- a greatest entry that is zero or not finite is refused, any other one is what is scaled by
  refine ⟨hgreatest, fun hfault => invoke_of_fault hvalues ?_, fun hnonzero hfinite => ?_⟩
  · rw [run_normalizeTo, if_pos (by simpa using hfault)]
  · obtain ⟨out, hout, hlift⟩ := hm.isLift_map fun x => x * (target / m.greatest)
    have hdata : out.data = m.data.map (· * (target / m.greatest)) := by
      have hgeneric := (hm.wellFormed.mapEntries fun x => x * (target / m.greatest)).generic
      rw [Except.ok.inj (hout.symm.trans hgeneric)]
      rfl
    refine ⟨out, invoke_of_run hvalues ?_, hlift, hgreatest.scale hnumeric hnonzero hdata⟩
    rw [run_normalizeTo, if_neg (by simp [hnonzero, hfinite]), hout]
    rfl

/-- The greatest of three entries is 4; scaled to 2 it is the greatest one still. -/
theorem normalizeTo_greatest_two :
    ∃ out, normalizeTo.invoke [.matrix ⟨.gray, 1, 3, 1, #[-8, 4, 2]⟩, .number 2] = .matrix out ∧
      out.entry 0 0 0 = -4 ∧ out.entry 0 1 0 = 2 ∧ out.IsGreatest 2 := by
  have hm : Matrix.Valid ⟨.gray, 1, 3, 1, #[-8, 4, 2]⟩ := ⟨by decide, by decide, rfl, rfl, nofun⟩
  have hnumeric : Matrix.IsNumeric ⟨.gray, 1, 3, 1, #[-8, 4, 2]⟩ := by
    simp [Matrix.IsNumeric]
    decide
  have hgreatest : Matrix.greatest ⟨.gray, 1, 3, 1, #[-8, 4, 2]⟩ = 4 := by decide +kernel
  have hsigns : ¬ Opposite 2 4 := by
    rintro (⟨h, -⟩ | ⟨-, h⟩) <;> revert h <;> decide
  have himage : (4 * (2 / 4) : Float) = 2 := by decide +kernel
  obtain ⟨-, -, hscaled⟩ := normalizeTo_greatest hm hnumeric 2
  rw [hgreatest, himage] at hscaled
  obtain ⟨out, hout, hlift, hkept, -⟩ := hscaled (by decide) (by decide +kernel)
  refine ⟨out, hout, ?_, ?_, hkept hsigns⟩
  · exact (hlift.entry 0 0 0 (by decide) (by decide) (by decide)).trans (by decide +kernel)
  · exact (hlift.entry 0 1 0 (by decide) (by decide) (by decide)).trans (by decide +kernel)

/-- The greatest of two negative entries is -1. Scaled to 1 it is below the other entry. -/
theorem normalizeTo_reversed :
    Matrix.Valid ⟨.gray, 1, 2, 1, #[-2, -1]⟩ ∧
      Matrix.IsNumeric ⟨.gray, 1, 2, 1, #[-2, -1]⟩ ∧ (1 : Float).isFinite = true ∧
      Matrix.greatest ⟨.gray, 1, 2, 1, #[-2, -1]⟩ = -1 ∧ (-1 * (1 / -1) : Float) = 1 ∧
      ∃ out, normalizeTo.invoke [.matrix ⟨.gray, 1, 2, 1, #[-2, -1]⟩, .number 1] = .matrix out ∧
        out.data = #[2, 1] ∧ ¬ out.IsGreatest 1 := by
  have hm : Matrix.Valid ⟨.gray, 1, 2, 1, #[-2, -1]⟩ := ⟨by decide, by decide, rfl, rfl, nofun⟩
  have hnumeric : Matrix.IsNumeric ⟨.gray, 1, 2, 1, #[-2, -1]⟩ := by
    simp [Matrix.IsNumeric]
    decide
  have hgreatest : Matrix.greatest ⟨.gray, 1, 2, 1, #[-2, -1]⟩ = -1 := by decide +kernel
  have hscaled : (#[-2, -1] : Array Float).map (· * (1 / -1)) = #[2, 1] := by decide +kernel
  have hvalues : ∀ v ∈ [Value.matrix ⟨.gray, 1, 2, 1, #[-2, -1]⟩, .number 1], v.isError = false := by
    simp [Value.isError]
  refine ⟨hm, hnumeric, by decide, hgreatest, by decide +kernel, ⟨.plain, 1, 2, 1, #[2, 1]⟩,
    invoke_of_run hvalues ?_, rfl, fun h => ?_⟩
  · rw [run_normalizeTo, hgreatest, if_neg (by decide +kernel)]
    show Except.ok (Value.matrix ⟨.plain, 1, 2, 1, #[-2, -1].map (· * (1 / -1))⟩) = _
    rw [hscaled]
  · exact h.upper 2 (by simp) (by decide)

end PixelCalc
