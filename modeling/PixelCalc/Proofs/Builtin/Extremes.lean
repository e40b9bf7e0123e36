import PixelCalc.Proofs.Binary64.Extremes
import PixelCalc.Proofs.Builtin.Lifting

/-!
# The extreme entry of a matrix

`Min` and `Max` of a single matrix run over its entries from an infinity on, `Min` and `Max` of
numbers from the first number on. Both pick the same entry of a matrix that has an entry other than
NaN. Of a matrix of nothing but NaN the infinity is left, which is no entry.

- `invoke_single`: the extreme of a single matrix.
- `extreme_of_entries`: how it compares with the extreme of its entries.
-/

namespace PixelCalc

open Builtin hiding min max

variable {f : Builtin} {m : Matrix}

/-- The infinity that the extreme of a matrix starts with. -/
def Builtin.extremeSeed : Builtin → Float
  | .max => -1 / 0
  | _ => 1 / 0

/-- What `Min` and `Max` pick, and how a single matrix is reduced. -/
theorem exists_picks (h : f = .min ∨ f = .max) :
    ∃ pick reduce, Binary64.Picks pick f.extremeSeed ∧
      (∀ args, f.run args = runExtreme f pick reduce args) ∧
      ∀ m, reduce m = m.data.toList.foldl pick f.extremeSeed := by
  obtain rfl | rfl := h
  · exact ⟨_, _, Binary64.picks_smaller, fun _ => rfl, fun m => (Array.foldl_toList ..).symm⟩
  · exact ⟨_, _, Binary64.picks_larger, fun _ => rfl, fun m => (Array.foldl_toList ..).symm⟩

theorem invoke_single {pick : Float → Float → Float} {reduce : Matrix → Float}
    (hrun : ∀ args, f.run args = runExtreme f pick reduce args) (m : Matrix) :
    f.invoke [.matrix m] = .number (reduce m) :=
  invoke_of_run (List.forall_mem_singleton.mpr rfl) (hrun _)

/-- A valid matrix has an entry. -/
theorem Matrix.Valid.exists_entries (hm : m.Valid) : ∃ x xs, m.data.toList = x :: xs := by
  have hchannels := (MatrixKind.accepts_bounds hm.accepts).1
  have hpos : 0 < m.data.toList.length := by
    rw [Array.length_toList, hm.size]
    exact Nat.mul_pos (Nat.mul_pos hm.rows_pos hm.cols_pos) hchannels
  exact List.exists_cons_of_length_pos hpos

/-- The seed of either fold is an infinity, which is a number. -/
theorem isNaN_extremeSeed (f : Builtin) : f.extremeSeed.isNaN = false := by
  cases f <;> decide

/-- The extreme of a single matrix is that of its entries, and one of them, if some entry is not NaN.
If all entries are NaN it is an infinity and so none of them, whereas the extreme of the entries is
NaN. -/
theorem extreme_of_entries (h : f = .min ∨ f = .max) (hm : m.Valid) :
    ((∃ x ∈ m.data, x.isNaN = false) →
      f.invoke [.matrix m] = f.invoke (m.data.toList.map .number) ∧
      ∃ x ∈ m.data, f.invoke [.matrix m] = .number x) ∧
    ((∀ x ∈ m.data, x.isNaN = true) →
      f.invoke [.matrix m] = .number f.extremeSeed ∧ f.extremeSeed.isNaN = false ∧
      ∃ x, x.isNaN = true ∧ f.invoke (m.data.toList.map .number) = .number x) := by
  obtain ⟨pick, reduce, hpicks, hrun, hreduce⟩ := exists_picks h
  obtain ⟨x, xs, hentries⟩ := hm.exists_entries
  have hsingle := invoke_single hrun m
  rw [hreduce] at hsingle
  -- over the entries as numbers the fold starts with the first entry, over the matrix with the seed
  have hnumbers : f.invoke (m.data.toList.map .number) = .number (xs.foldl pick x) := by
    rw [hentries]
    exact invoke_numbers hrun x xs
  have hmem : xs.foldl pick x ∈ m.data := by
    rw [← Array.mem_toList_iff, hentries]
    exact hpicks.foldl_mem x xs
  constructor
  · intro hnumber
    -- one number among the entries, and the seed is never picked over it
    have hpicked : m.data.toList.foldl pick f.extremeSeed = xs.foldl pick x := by
      simp only [← Array.mem_toList_iff, hentries] at hnumber
      rw [hentries, hpicks.foldl_eq hnumber]
    rw [hpicked] at hsingle
    exact ⟨hsingle.trans hnumbers.symm, _, hmem, hsingle⟩
  · intro hnan
    have hpicked : m.data.toList.foldl pick f.extremeSeed = f.extremeSeed :=
      hpicks.foldl_of_isNaN fun x hx => hnan x (Array.mem_toList_iff.mp hx)
    rw [hpicked] at hsingle
    exact ⟨hsingle, isNaN_extremeSeed f, _, hnan _ hmem, hnumbers⟩

/-- The least entry of a matrix whose first entry is NaN. -/
theorem extreme_of_entries_nan_first :
    Builtin.min.invoke [.matrix ⟨.gray, 1, 3, 1, #[0 / 0, 3, -2]⟩] =
        Builtin.min.invoke [.number (0 / 0), .number 3, .number (-2)] ∧
      ∃ x ∈ #[0 / 0, 3, -2],
        Builtin.min.invoke [.matrix ⟨.gray, 1, 3, 1, #[0 / 0, 3, -2]⟩] = .number x := by
  have hm : Matrix.Valid ⟨.gray, 1, 3, 1, #[0 / 0, 3, -2]⟩ :=
    ⟨by decide, by decide, rfl, rfl, nofun⟩
  exact (extreme_of_entries (.inl rfl) hm).1 ⟨3, by simp, by decide⟩

/-- The least entry of a matrix whose only entry is NaN is the infinity, which is no entry; the least
of the entry is NaN. -/
theorem least_of_nan :
    Matrix.Valid ⟨.plain, 1, 1, 1, #[0 / 0]⟩ ∧
      Builtin.min.invoke [.matrix ⟨.plain, 1, 1, 1, #[0 / 0]⟩] = .number (1 / 0) ∧
      Builtin.min.invoke [.number (0 / 0)] = .number (0 / 0) ∧
      (1 / 0 : Float).isNaN = false ∧ (0 / 0 : Float).isNaN = true :=
  ⟨⟨by decide, by decide, rfl, rfl, nofun⟩, rfl, rfl, by decide, by decide⟩

end PixelCalc
