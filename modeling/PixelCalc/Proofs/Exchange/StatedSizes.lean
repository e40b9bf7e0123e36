import PixelCalc.Proofs.Exchange.PixelRows

/-!
# Sizes that an object states

An object may state the rows, the columns and the channels of its matrix. With flat data they are what
the matrix is made of, so an object that is accepted states them right. Rows of pixels give the sizes
themselves: what the object states beside them is not looked at, and may be wrong.

- `Matrix.sizes`, `StatesSizes`: the sizes of a matrix by their keys, and objects that state no other.
- `statesSizes_of_flatMatrix`: flat data.
- `objectMatrix_nested`: rows of pixels depend on the kind and the data only.
- `stated_sizes`: what an accepted object states; `wrong_rows` states rows that are not there.
-/

namespace PixelCalc

/-- The sizes of a matrix under the keys that an object states them under. -/
def Matrix.sizes (m : Matrix) : List (String × Nat) :=
  [("rows", m.rows), ("cols", m.cols), ("channels", m.channels)]

namespace Decoding

variable {fields : Table Json} {key : String} {data : List Json} {kind : MatrixKind} {n : Nat}
  {n? : Option Nat} {m : Matrix} {j : Json}

/-- The size that an object states is an integer, and the right one. -/
def States (fields : Table Json) (key : String) (n : Nat) : Prop :=
  ∀ j, fields.find? key = some j → j = .integer n

/-- Every size that an object states is that of the matrix. -/
def StatesSizes (fields : Table Json) (m : Matrix) : Prop :=
  ∀ size ∈ m.sizes, States fields size.1 size.2

/-! ### Flat data -/

/-- Only an integer is read as a natural number. -/
theorem natural?_eq_some (h : j.natural? = some n) : j = .integer n := by
  unfold Json.natural? at h
  split at h
  · split at h
    · rename_i hnonneg
      cases h
      rw [Int.toNat_of_nonneg hnonneg]
    · cases h
  · cases h

/-- A size that is found is stated as an integer. -/
theorem states_of_sizeField (h : sizeField fields key = .ok n?) (hn : ∀ k, n? = some k → k = n) :
    States fields key n := by
  intro j hj
  unfold sizeField at h
  rw [hj] at h
  dsimp only at h
  split at h
  · rename_i k hk
    cases h
    rw [natural?_eq_some hk, hn k rfl]
  · cases h

/-- Flat data are a matrix of the sizes that are stated. -/
theorem statesSizes_of_flatMatrix (h : flatMatrix fields kind data = .ok m) :
    StatesSizes fields m := by
  obtain ⟨rows?, hrows, h⟩ := bind_eq_ok h
  obtain ⟨cols?, hcols, h⟩ := bind_eq_ok h
  split at h
  · split at h
    · cases h
    · obtain ⟨channels?, hchannels, h⟩ := bind_eq_ok h
      obtain ⟨values, -, h⟩ := bind_eq_ok h
      obtain ⟨rfl, -, -⟩ := Matrix.ofValues_eq_ok (described_eq_ok h)
      simp only [StatesSizes, Matrix.sizes, List.forall_mem_cons]
      refine ⟨states_of_sizeField hrows fun _ hk => ?_, states_of_sizeField hcols fun _ hk => ?_,
        states_of_sizeField hchannels fun k hk => ?_, fun _ hmem => absurd hmem List.not_mem_nil⟩
      · exact (Option.some.inj hk).symm
      · exact (Option.some.inj hk).symm
      · -- stated channels come before those of the kind and those that the data have room for
        subst hk
        rfl
  · cases h

/-! ### Rows of pixels -/

/-- With another kind the matrix of a grid has the same size. -/
theorem isGrid_of_withKind {plain : Matrix} (hplain : nestedMatrix data = .ok plain)
    (h : plain.withKind kind = .ok m) : IsGrid data m.cols m.channels ∧ m.rows = data.length := by
  obtain ⟨hvalid, hgrid⟩ := isGrid_of_nestedMatrix hplain
  obtain ⟨rfl, -⟩ := Matrix.valid_of_check (m := plain.retag kind) hvalid.size h
  exact hgrid

/-- Of an object with rows of pixels only the kind and the rows are looked at. -/
theorem objectMatrix_nested (hdata : fields.find? "data" = some (.array data))
    (hnested : isNested data = true) :
    objectMatrix fields = kindField fields >>= fun kind =>
      nestedMatrix data >>= fun m => described (m.withKind kind) := by
  unfold objectMatrix
  rw [hdata]
  exact congrArg (kindField fields >>= ·) (funext fun _ => if_pos hnested)

/-! ### Objects -/

/-- What an object that is accepted states about the sizes of its matrix. Beside flat data all that it
states is right. Beside rows of pixels, which the matrix has the sizes of, it may state anything. -/
theorem stated_sizes (h : (Json.object fields).toValue = .ok (.matrix m)) :
    ∃ data, fields.find? "data" = some (.array data) ∧
      (isNested data = false → StatesSizes fields m) ∧
      (isNested data = true →
        IsGrid data m.cols m.channels ∧ m.rows = data.length ∧
        ∀ other : Table Json, other.find? "type" = fields.find? "type" →
          other.find? "data" = fields.find? "data" →
          (Json.object other).toValue = .ok (.matrix m)) := by
  obtain ⟨m', hmatrix, hm⟩ := bind_eq_ok h
  cases hm
  have hobject := hmatrix
  obtain ⟨kind, -, hmatrix⟩ := bind_eq_ok hmatrix
  split at hmatrix
  · rename_i data hdata
    refine ⟨data, hdata, fun hflat => ?_, fun hnested => ?_⟩
    · rw [if_neg (Bool.eq_false_iff.mp hflat)] at hmatrix
      exact statesSizes_of_flatMatrix hmatrix
    · rw [if_pos hnested] at hmatrix
      obtain ⟨plain, hplain, hmatrix⟩ := bind_eq_ok hmatrix
      obtain ⟨hgrid, hrows⟩ := isGrid_of_withKind hplain (described_eq_ok hmatrix)
      -- the keys of the sizes are not among those that are looked up
      refine ⟨hgrid, hrows, fun other htype hother => ?_⟩
      have hkind : kindField other = kindField fields := by
        unfold kindField
        rw [htype]
      have hsame : objectMatrix other = .ok m := by
        rw [objectMatrix_nested (hother.trans hdata) hnested, hkind,
          ← objectMatrix_nested hdata hnested, hobject]
      show (objectMatrix other >>= _) = _
      rw [hsame]
      rfl
  · cases hmatrix

/-- A pixel of two channels in flat data, whose object states all sizes. -/
theorem stated_sizes_pixel :
    let fields : Table Json := [("channels", .integer 2), ("cols", .integer 1),
      ("data", .array [.integer 3, .integer 4]), ("rows", .integer 1)]
    let m : Matrix := ⟨.plain, 1, 1, 2, #[3, 4]⟩
    (Json.object fields).toValue = .ok (.matrix m) ∧ StatesSizes fields m := by
  intro fields m
  have h : (Json.object fields).toValue = .ok (.matrix m) := rfl
  obtain ⟨data, hdata, hflat, -⟩ := stated_sizes h
  cases hdata
  exact ⟨h, hflat rfl⟩

/-- An object with one row of pixels that states five. -/
theorem wrong_rows :
    let fields : Table Json := [("data", .array [.array [.integer 1]]), ("rows", .integer 5)]
    let m : Matrix := ⟨.plain, 1, 1, 1, #[1]⟩
    (Json.object fields).toValue = .ok (.matrix m) ∧ ¬ StatesSizes fields m := by
  intro fields m
  refine ⟨rfl, fun h => ?_⟩
  have hrows : Json.integer 5 = .integer 1 := h ("rows", 1) List.mem_cons_self (.integer 5) rfl
  cases hrows

end Decoding
end PixelCalc
