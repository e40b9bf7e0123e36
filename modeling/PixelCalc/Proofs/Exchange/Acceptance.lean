import PixelCalc.Exchange.Decoding
import PixelCalc.Json.Number
import PixelCalc.Proofs.Binary64.Finiteness
import PixelCalc.Proofs.Matrix.Description
import PixelCalc.Proofs.Sequencing

/-!
# What decoding accepts

The values that come from JSON documents are those that JSON can hold: a number that is decoded is
finite, and a matrix that is decoded has passed the checks of its size and its kind.

- `Json.WellFormed`: the integers of a document fit 64 bits and its other numbers are finite.
- `Matrix.Exchangeable`, `Value.Exchangeable`: the values that JSON can hold.
- `finite_of_numbers`, `finite_of_pixel`, `finite_of_row`: decoded numbers are finite.
- `exchangeable_of_ofValues`: what passes the checks can be held if its numbers are finite.
- `exchangeable_of_toValue`: decoding gives nothing else.
-/

namespace PixelCalc

/-! ### Documents and values -/

/-- The numbers of a document are such as a text can have: integers have 64 bits, with a sign or
without, and other numbers are finite. -/
inductive Json.WellFormed : Json → Prop
  | null : WellFormed .null
  | bool (b : Bool) : WellFormed (.bool b)
  | integer {n : Int} (hlow : -minInteger ≤ n) (hhigh : n ≤ maxInteger) : WellFormed (.integer n)
  | real {x : Float} (h : x.isFinite = true) : WellFormed (.real x)
  | text (s : String) : WellFormed (.text s)
  | array {items : List Json} (h : ∀ j ∈ items, WellFormed j) : WellFormed (.array items)
  | object {fields : List (String × Json)} (h : ∀ field ∈ fields, WellFormed field.2) :
      WellFormed (.object fields)

/-- A matrix that JSON can hold: it is valid and its numbers are finite. No array has `2^63` numbers
or more. -/
structure Matrix.Exchangeable (m : Matrix) : Prop where
  valid : m.Valid
  size_lt : m.data.size < UInt64.size / 2
  finite : ∀ x ∈ m.data, x.isFinite = true

/-- A value that JSON can hold. -/
inductive Value.Exchangeable : Value → Prop
  | number {x : Float} (h : x.isFinite = true) : Exchangeable (.number x)
  | boolean (b : Bool) : Exchangeable (.boolean b)
  | nothing : Exchangeable .nothing
  | matrix {m : Matrix} (h : m.Exchangeable) : Exchangeable (.matrix m)

variable {j : Json} {js rows data : List Json} {x : Float} {xs : List Float} {m m' : Matrix}

/-- A field that is found is one of the fields, so it is well formed as they are. -/
theorem Json.WellFormed.find? {fields : Table Json} {key : String}
    (h : ∀ field ∈ fields, field.2.WellFormed) (hfind : fields.find? key = some j) :
    j.WellFormed := by
  induction fields with
  | nil => cases hfind
  | cons field fields ih =>
    obtain ⟨hfield, hfields⟩ := List.forall_mem_cons.mp h
    rw [Table.find?] at hfind
    split at hfind
    · cases hfind
      exact hfield
    · exact ih hfields hfind

namespace Decoding

/-! ### Numbers -/

/-- Integers that a document can hold lie far below the greatest float, so none of them rounds to
infinity. -/
theorem isFinite_of_range {n : Int} (hlow : -Json.minInteger ≤ n) (hhigh : n ≤ Json.maxInteger) :
    (Binary64.ofInteger n).isFinite = true := by
  have hmin : Json.minInteger = 0x8000000000000000 := rfl
  have hmax : Json.maxInteger = 0xFFFFFFFFFFFFFFFF := rfl
  have hsize : UInt64.size = 0x10000000000000000 := rfl
  exact Binary64.isFinite_ofInteger (by omega)

/-- A number in a well-formed document is finite: a range bounds the integers, and decimals are
finite by definition. -/
theorem finite_of_number? (h : j.WellFormed) (hnumber : j.number? = some x) :
    x.isFinite = true := by
  cases h with
  | integer hlow hhigh =>
    cases hnumber
    exact isFinite_of_range hlow hhigh
  | real h =>
    cases hnumber
    exact h
  | _ => cases hnumber

/-- What holds of the numbers of every part holds of all of them. -/
theorem forall_mem_collect {P : Float → Prop} {f : Json → Except Failure (List Float)}
    (hf : ∀ j ∈ js, ∀ xs, f j = .ok xs → ∀ x ∈ xs, P x) (h : collect f js = .ok xs) :
    ∀ x ∈ xs, P x := by
  -- Induction on the items. Numbers collected from the first item come before those of the others,
  -- and an error among them leaves nothing to show.
  induction js generalizing xs with
  | nil =>
    cases h
    nofun
  | cons j js ih =>
    obtain ⟨hj, hjs⟩ := List.forall_mem_cons.mp hf
    obtain ⟨first, hfirst, h⟩ := bind_eq_ok h
    obtain ⟨rest, hrest, h⟩ := bind_eq_ok h
    cases h
    intro x hx
    rcases List.mem_append.mp hx with hx | hx
    · exact hj first hfirst x hx
    · exact ih hjs hrest x hx

/-- Collected numbers are finite. -/
theorem finite_of_numbers (h : ∀ j ∈ js, j.WellFormed) (hnumbers : numbers js = .ok xs) :
    ∀ x ∈ xs, x.isFinite = true := by
  refine forall_mem_collect (fun j hj xs hxs => ?_) hnumbers
  obtain ⟨x, hx, hxs⟩ := bind_eq_ok hxs
  cases hxs
  unfold number at hx
  split at hx
  · rename_i hnumber
    cases hx
    exact List.forall_mem_singleton.mpr (finite_of_number? (h j hj) hnumber)
  · cases hx

/-- The numbers of a pixel are finite, whether it is an array of channels or a bare number. -/
theorem finite_of_pixel {channels : Nat} (h : j.WellFormed)
    (hpixel : pixelNumbers channels j = .ok xs) : ∀ x ∈ xs, x.isFinite = true := by
  unfold pixelNumbers at hpixel
  split at hpixel
  · split at hpixel
    · cases h with
      | array h => exact finite_of_numbers h hpixel
    · cases hpixel
  · split at hpixel
    · exact finite_of_numbers (List.forall_mem_singleton.mpr h) hpixel
    · cases hpixel

/-- The numbers of a row are finite, pixel after pixel. -/
theorem finite_of_row {cols channels : Nat} (h : j.WellFormed)
    (hrow : rowNumbers cols channels j = .ok xs) : ∀ x ∈ xs, x.isFinite = true := by
  unfold rowNumbers at hrow
  split at hrow
  · split at hrow
    · cases h with
      | array h =>
        exact forall_mem_collect (fun j hj _ hpixel => finite_of_pixel (h j hj) hpixel) hrow
    · cases hrow
  · cases hrow

/-! ### Matrices -/

/-- Describing an error in other words does not turn it into a matrix. -/
theorem described_eq_ok {result : Except MatrixError Matrix} (h : described result = .ok m) :
    result = .ok m := by
  cases result with
  | ok m' =>
    cases h
    rfl
  | error e => cases h

/-- A matrix that is made of finite numbers has passed the checks. -/
theorem exchangeable_of_ofValues {kind : MatrixKind} {rows cols channels : Nat}
    (hfinite : ∀ x ∈ xs, x.isFinite = true)
    (h : Matrix.ofValues kind rows cols channels xs = .ok m) : m.Exchangeable := by
  obtain ⟨rfl, hvalid, hsize⟩ := Matrix.ofValues_eq_ok h
  exact ⟨hvalid, hsize, fun x hx => hfinite x (List.mem_toArray.mp hx)⟩

/-- Another kind is checked again. -/
theorem exchangeable_of_withKind {kind : MatrixKind} (h : m.Exchangeable)
    (hkind : m.withKind kind = .ok m') : m'.Exchangeable := by
  obtain ⟨rfl, hvalid⟩ := Matrix.valid_of_check (m := m.retag kind) h.valid.size hkind
  exact ⟨hvalid, h.size_lt, h.finite⟩

/-- Rows of pixels that decode give a valid matrix of finite entries that is small enough to be
sent. -/
theorem exchangeable_of_nestedMatrix (h : ∀ j ∈ rows, j.WellFormed)
    (hmatrix : nestedMatrix rows = .ok m) : m.Exchangeable := by
  obtain ⟨values, hvalues, hmatrix⟩ := bind_eq_ok hmatrix
  have hfinite := forall_mem_collect (fun j hj _ hrow => finite_of_row (h j hj) hrow) hvalues
  exact exchangeable_of_ofValues hfinite (described_eq_ok hmatrix)

/-- Flat data that decode give a valid matrix of finite entries that is small enough to be sent. -/
theorem exchangeable_of_flatMatrix {fields : Table Json} {kind : MatrixKind}
    (h : ∀ j ∈ data, j.WellFormed) (hmatrix : flatMatrix fields kind data = .ok m) :
    m.Exchangeable := by
  obtain ⟨rows?, -, hmatrix⟩ := bind_eq_ok hmatrix
  obtain ⟨cols?, -, hmatrix⟩ := bind_eq_ok hmatrix
  split at hmatrix
  · split at hmatrix
    · cases hmatrix
    · obtain ⟨channels?, -, hmatrix⟩ := bind_eq_ok hmatrix
      obtain ⟨values, hvalues, hmatrix⟩ := bind_eq_ok hmatrix
      exact exchangeable_of_ofValues (finite_of_numbers h hvalues) (described_eq_ok hmatrix)
  · cases hmatrix

/-- An object that decodes gives such a matrix either way. -/
theorem exchangeable_of_objectMatrix {fields : Table Json}
    (h : ∀ field ∈ fields, field.2.WellFormed) (hmatrix : objectMatrix fields = .ok m) :
    m.Exchangeable := by
  obtain ⟨kind, -, hmatrix⟩ := bind_eq_ok hmatrix
  split at hmatrix
  · rename_i data hdata
    cases Json.WellFormed.find? h hdata with
    | array hdata =>
      -- nested data are retagged with the kind after they are read; flat data are read with it
      split at hmatrix
      · obtain ⟨plain, hplain, hmatrix⟩ := bind_eq_ok hmatrix
        exact exchangeable_of_withKind (exchangeable_of_nestedMatrix hdata hplain)
          (described_eq_ok hmatrix)
      · exact exchangeable_of_flatMatrix hdata hmatrix
  · cases hmatrix

/-- What decoding accepts JSON can hold. -/
theorem exchangeable_of_toValue {v : Value} (h : j.WellFormed) (hvalue : j.toValue = .ok v) :
    v.Exchangeable := by
  cases h with
  | null =>
    cases hvalue
    exact .nothing
  | bool b =>
    cases hvalue
    exact .boolean b
  | integer hlow hhigh =>
    cases hvalue
    exact .number (isFinite_of_range hlow hhigh)
  | real h =>
    cases hvalue
    exact .number h
  | text => cases hvalue
  | array h =>
    obtain ⟨m, hmatrix, hvalue⟩ := bind_eq_ok hvalue
    cases hvalue
    exact .matrix (exchangeable_of_nestedMatrix h hmatrix)
  | object h =>
    obtain ⟨m, hmatrix, hvalue⟩ := bind_eq_ok hvalue
    cases hvalue
    exact .matrix (exchangeable_of_objectMatrix h hmatrix)

end Decoding
end PixelCalc
