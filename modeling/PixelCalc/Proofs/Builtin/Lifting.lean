import PixelCalc.Proofs.Builtin.Results
import PixelCalc.Proofs.Matrix.Pointwise
import PixelCalc.Value.Operation

/-!
# Operations on matrices are those on numbers

Arithmetic, `Abs`, `Min` and `Max` of matrices compute every entry from the entries at its place, as
the same operation computes it from numbers; a comparison asks the question of the numbers at every
channel of a pixel. All of them fail only if the matrices differ in shape.

- `Application`: an operation or a call with its operands; `Application.entryAt` is the same one
  on what its operands have at one position.
- `Application.Entrywise`, `Application.Comparison`: the applications that are lifted to matrices.
- `Application.IsLift`, `Application.IsMask`: what their results are.
- `extremeMatrix_lifts`, `extremeMatrix_fails`: the run over the matrices of `Min` and `Max`.
- `application_pointwise`: lifted applications, all at once.
-/

namespace PixelCalc

/-! ### Applications -/

/-- What a value has at a position: an entry, if it is a matrix. Any other value stands
everywhere. -/
def Value.entryAt (row col channel : Nat) : Value → Value
  | matrix m => number (m.entry row col channel)
  | v => v

/-- The operators that compute a number from two numbers, and a matrix where one of them is a
matrix. -/
def Operator.isArithmetic : Operator → Bool
  | plus | minus | times | divide | remainder => true
  | _ => false

/-- The operators that compare two numbers. -/
def Operator.isComparison : Operator → Bool
  | equal | notEqual | greater | greaterEqual | less | lessEqual => true
  | _ => false

/-- An operation, or a call of a built-in function, with its operands. -/
inductive Application where
  | operation (op : Operator) (left right : Value)
  | call (f : Builtin) (args : List Value)

namespace Application

/-- The value of an application. -/
def value : Application → Value
  | operation op left right => op.compute left right
  | call f args => f.invoke args

/-- The operands that are matrices. -/
def matrices : Application → List Matrix
  | operation _ left right => [left, right].filterMap Value.matrix?
  | call _ args => args.filterMap Value.matrix?

/-- The same application to what the operands have at one position. -/
def entryAt (row col channel : Nat) : Application → Application
  | operation op left right =>
    operation op (left.entryAt row col channel) (right.entryAt row col channel)
  | call f args => call f (args.map (Value.entryAt row col channel))

/-- The applications whose result is a matrix, computed entry by entry. -/
inductive Entrywise : Application → Prop
  | numberMatrix {op : Operator} (h : op.isArithmetic = true) (x : Float) (m : Matrix) :
      Entrywise (operation op (.number x) (.matrix m))
  | matrixNumber {op : Operator} (h : op.isArithmetic = true) (m : Matrix) (x : Float) :
      Entrywise (operation op (.matrix m) (.number x))
  | matrixMatrix {op : Operator} (h : op.isArithmetic = true) (a b : Matrix) :
      Entrywise (operation op (.matrix a) (.matrix b))
  | power (m : Matrix) (x : Float) : Entrywise (operation .power (.matrix m) (.number x))
  | abs (m : Matrix) : Entrywise (call .abs [.matrix m])
  | extreme {f : Builtin} (h : f = .min ∨ f = .max) (first second : Matrix) (rest : List Matrix) :
      Entrywise (call f (.matrix first :: .matrix second :: rest.map .matrix))

/-- The applications whose result is a mask, computed pixel by pixel. -/
inductive Comparison : Application → Prop
  | matrixNumber {op : Operator} (h : op.isComparison = true) (m : Matrix) (x : Float) :
      Comparison (operation op (.matrix m) (.number x))
  | matrixMatrix {op : Operator} (h : op.isComparison = true) (a b : Matrix) :
      Comparison (operation op (.matrix a) (.matrix b))

/-- All matrices have the same rows, columns and channels. -/
def SameShapes (app : Application) : Prop :=
  ∀ a ∈ app.matrices, ∀ b ∈ app.matrices, a.sameShape b = true

/-- A plain matrix of the shape of the operands whose entries are the numbers that the application
makes of theirs. -/
structure IsLift (app : Application) (out : Matrix) : Prop where
  valid : out.Valid
  plain : out.kind = .plain
  shape : ∀ m ∈ app.matrices, out.sameShape m = true
  entry : ∀ row col channel, row < out.rows → col < out.cols → channel < out.channels →
    ∃ x, out.get? row col channel = some x ∧
      (app.entryAt row col channel).value = .number x

/-- A mask of the size of the operands that is 255 where the application is true of all channels of
a pixel, and 0 elsewhere. -/
structure IsMask (app : Application) (out : Matrix) : Prop where
  valid : out.Valid
  mask : out.kind = .mask
  single : out.channels = 1
  size : ∀ m ∈ app.matrices, out.sameSize m = true
  pixel : ∀ row col, row < out.rows → col < out.cols →
    (out.get? row col 0 = some 255 ∨ out.get? row col 0 = some 0) ∧
    ∀ m ∈ app.matrices, (out.get? row col 0 = some 255 ↔
      ∀ channel < m.channels, (app.entryAt row col channel).value = .boolean true)

/-- The application fails exactly if its matrices differ in shape, and else it is a matrix with the
property. -/
structure Gives (app : Application) (P : Matrix → Prop) : Prop where
  fails : app.value.isError = true ↔ ¬ app.SameShapes
  gives : app.SameShapes → ∃ out, app.value = .matrix out ∧ P out

variable {app : Application} {P : Matrix → Prop}

/-- An application to matrices of one shape gives the matrix that its value is. -/
theorem Gives.of_matrix {out : Matrix} (h : app.SameShapes) (hvalue : app.value = .matrix out)
    (hout : P out) : app.Gives P := by
  refine ⟨?_, fun _ => ⟨out, hvalue, hout⟩⟩
  rw [hvalue]
  exact iff_of_false nofun (not_not_intro h)

/-- An application to matrices of different shapes gives a fault. -/
theorem Gives.of_fault {fault : Fault} (h : ¬ app.SameShapes) (hvalue : app.value = .error fault) :
    app.Gives P := by
  refine ⟨?_, fun h' => absurd h' h⟩
  rw [hvalue]
  exact iff_of_true rfl h

/-- Matrices have one shape if all have that of the first one. -/
theorem sameShapes_iff {first : Matrix} {rest : List Matrix}
    (h : app.matrices = first :: rest) :
    app.SameShapes ↔ ∀ m ∈ rest, first.sameShape m = true := by
  unfold SameShapes
  rw [h]
  constructor
  · exact fun h m hm => h first List.mem_cons_self m (List.mem_cons_of_mem _ hm)
  · intro h
    have hfirst : ∀ m ∈ first :: rest, first.sameShape m = true :=
      List.forall_mem_cons.mpr ⟨Matrix.sameShape_refl first, h⟩
    exact fun a ha b hb =>
      Matrix.sameShape_trans (Matrix.sameShape_symm (hfirst a ha)) (hfirst b hb)

end Application

/-! ### Operators -/

open Operation

namespace Application

variable {op : Operator} {app : Application} {m a b out : Matrix}

/-- A construction lifts an application that makes the same numbers of the entries. -/
theorem isLift_of_construction {f : Nat → Nat → Nat → Float} (h : out.IsLift m f)
    (hshape : ∀ n ∈ app.matrices, m.sameShape n = true)
    (hentry : ∀ row col channel,
      (app.entryAt row col channel).value = .number (f row col channel)) : app.IsLift out :=
  ⟨h.valid, h.plain, fun n hn => Matrix.sameShape_trans h.shape (hshape n hn),
    fun row col channel hrow hcol hchannel =>
      ⟨f row col channel, h.get?_eq hrow hcol hchannel, hentry row col channel⟩⟩

theorem shape_of_single (hmatrices : app.matrices = [m]) :
    ∀ n ∈ app.matrices, m.sameShape n = true := by
  rw [hmatrices]
  exact List.forall_mem_singleton.mpr (Matrix.sameShape_refl m)

theorem shape_of_pair (hmatrices : app.matrices = [a, b]) (hshape : a.sameShape b = true) :
    ∀ n ∈ app.matrices, a.sameShape n = true := by
  rw [hmatrices]
  exact List.forall_mem_cons.mpr ⟨Matrix.sameShape_refl a, List.forall_mem_singleton.mpr hshape⟩

/-- Of two matrices only the two have to be compared. -/
theorem sameShapes_pair (hmatrices : app.matrices = [a, b]) :
    app.SameShapes ↔ a.sameShape b = true :=
  (sameShapes_iff hmatrices).trans List.forall_mem_singleton

/-- An application to one matrix that is computed by `Matrix.map`. -/
theorem gives_of_map (hm : m.Valid) (f : Float → Float) (hmatrices : app.matrices = [m])
    (hvalue : ∀ out, m.map f = .ok out → app.value = .matrix out)
    (hentry : ∀ row col channel,
      (app.entryAt row col channel).value = .number (f (m.entry row col channel))) :
    app.Gives app.IsLift := by
  obtain ⟨out, hout, hlift⟩ := hm.isLift_map f
  exact .of_matrix ((sameShapes_iff hmatrices).mpr nofun) (hvalue out hout)
    (isLift_of_construction hlift (shape_of_single hmatrices) hentry)

/-- The mask of a test that the application answers at every channel. -/
theorem isMask_maskBy (hm : m.Valid) (p : Nat → Nat → Nat → Bool)
    (hshape : ∀ n ∈ app.matrices, m.sameShape n = true)
    (hentry : ∀ row col channel,
      (app.entryAt row col channel).value = .boolean (p row col channel)) :
    app.IsMask (m.maskBy p) := by
  refine ⟨hm.maskBy p, rfl, rfl, fun n hn => ?_, fun row col hrow hcol => ?_⟩
  · obtain ⟨hrows, hcols, -⟩ := Matrix.sameShape_iff.mp (hshape n hn)
    simp [Matrix.sameSize, Matrix.maskBy, Matrix.tabulate, hrows, hcols]
  · have hpixel := Matrix.get?_maskBy (m := m) p hrow hcol
    refine ⟨hpixel.imp And.left And.left, fun n hn => ?_⟩
    simp only [hentry, Value.boolean.injEq, ← (Matrix.sameShape_iff.mp (hshape n hn)).2.2]
    obtain ⟨hget, hall⟩ | ⟨hget, channel, hchannel, hfalse⟩ := hpixel
    · exact iff_of_true hget hall
    · refine iff_of_false ?_ fun hall => Bool.false_ne_true (hfalse.symm.trans (hall channel hchannel))
      rw [hget]
      exact fun h => absurd (Option.some.inj h) (by decide)

/-- Every operator of arithmetic is one and the same definition with a function on floats. -/
theorem exists_arithmetic (h : op.isArithmetic = true) :
    ∃ f, ∀ left right, op.onValues left right = arithmetic op f left right := by
  cases op <;> first | exact ⟨_, fun _ _ => rfl⟩ | cases h

theorem exists_comparison (h : op.isComparison = true) :
    ∃ test, ∀ left right, op.onValues left right = comparison op test left right := by
  cases op <;> first | exact ⟨_, fun _ _ => rfl⟩ | cases h

/-- Arithmetic of two matrices is computed entry by entry, or their shapes differ. -/
theorem gives_arithmetic (h : op.isArithmetic = true) (ha : a.Valid) (hb : b.Valid) :
    (operation op (.matrix a) (.matrix b)).Gives (operation op (.matrix a) (.matrix b)).IsLift := by
  obtain ⟨f, hf⟩ := exists_arithmetic h
  have hvalue : (operation op (.matrix a) (.matrix b)).value =
      if a.sameShape b then ofConstruction (a.zipWith f b)
      else .error (.operandShapes op a.text b.text) := hf ..
  by_cases hshape : a.sameShape b = true
  · obtain ⟨out, hout, hlift⟩ := ha.isLift_zipWith hb hshape f
    rw [if_pos hshape, hout] at hvalue
    exact .of_matrix ((sameShapes_pair rfl).mpr hshape) hvalue
      (isLift_of_construction hlift (shape_of_pair rfl hshape) fun _ _ _ => hf ..)
  · rw [if_neg hshape] at hvalue
    exact .of_fault (mt (sameShapes_pair rfl).mp hshape) hvalue

/-- A comparison of two matrices is a mask, or their shapes differ. -/
theorem gives_comparison (h : op.isComparison = true) (ha : a.Valid) :
    (operation op (.matrix a) (.matrix b)).Gives (operation op (.matrix a) (.matrix b)).IsMask := by
  obtain ⟨test, htest⟩ := exists_comparison h
  have hvalue : (operation op (.matrix a) (.matrix b)).value =
      if a.sameShape b then ofConstruction (a.maskZip test b)
      else .error (.operandShapes op a.text b.text) := htest ..
  by_cases hshape : a.sameShape b = true
  · rw [if_pos hshape, Matrix.maskZip, if_pos hshape] at hvalue
    exact .of_matrix ((sameShapes_pair rfl).mpr hshape) hvalue
      (isMask_maskBy ha _ (shape_of_pair rfl hshape) fun _ _ _ => htest ..)
  · rw [if_neg hshape] at hvalue
    exact .of_fault (mt (sameShapes_pair rfl).mp hshape) hvalue

end Application

/-! ### Extremes of several matrices -/

open Builtin hiding min max

variable {f : Builtin} {pick : Float → Float → Float} {m n : Matrix} {rest : List Matrix}

/-- The extreme of numbers is picked from left to right. -/
theorem extremeNumber_numbers (f : Builtin) (pick : Float → Float → Float) (x : Float)
    (ys : List Float) : extremeNumber f pick x (ys.map .number) = .ok (ys.foldl pick x) := by
  induction ys generalizing x with
  | nil => rfl
  | cons y ys ih => exact ih (pick x y)

/-- One step of the run over matrices of one shape. -/
theorem extremeMatrix_cons (f : Builtin) (pick : Float → Float → Float) (hm : m.Valid)
    (hn : n.Valid) (hshape : m.sameShape n = true) :
    ∃ picked, picked.IsLift m (fun row col channel =>
        pick (m.entry row col channel) (n.entry row col channel)) ∧
      ∀ args, extremeMatrix f pick m (.matrix n :: args) = extremeMatrix f pick picked args := by
  obtain ⟨picked, hpicked, hlift⟩ := hm.isLift_zipWith hn hshape pick
  refine ⟨picked, hlift, fun args => ?_⟩
  rw [extremeMatrix, if_pos hshape, hpicked]
  rfl

/-- The extreme of two or more matrices of one shape is picked from left to right at every entry. -/
theorem extremeMatrix_lifts (f : Builtin) (pick : Float → Float → Float) (hm : m.Valid)
    (hrest : ∀ k ∈ n :: rest, k.Valid ∧ m.sameShape k = true) :
    ∃ out, extremeMatrix f pick m ((n :: rest).map .matrix) = .ok out ∧
      out.IsLift m fun row col channel =>
        ((n :: rest).map fun k => k.entry row col channel).foldl pick (m.entry row col channel) := by
  induction rest generalizing m n with
  | nil =>
    obtain ⟨hn, hshape⟩ := hrest n List.mem_cons_self
    obtain ⟨picked, hlift, hstep⟩ := extremeMatrix_cons f pick hm hn hshape
    exact ⟨picked, hstep [], hlift⟩
  | cons k rest ih =>
    obtain ⟨⟨hn, hshape⟩, hrest⟩ := List.forall_mem_cons.mp hrest
    obtain ⟨picked, hlift, hstep⟩ := extremeMatrix_cons f pick hm hn hshape
    -- the rest is picked from the matrix of the first step, which has the shape of `m`
    obtain ⟨out, hout, hfold⟩ := ih hlift.valid fun k hk =>
      ⟨(hrest k hk).1, Matrix.sameShape_trans hlift.shape (hrest k hk).2⟩
    refine ⟨out, (hstep _).trans hout, hfold.congr hlift.shape ?_⟩
    intro row col channel hrow hcol hchannel
    rw [hlift.entry row col channel hrow hcol hchannel]
    rfl

/-- One matrix of another shape is enough to have no extreme. -/
theorem extremeMatrix_fails (f : Builtin) (pick : Float → Float → Float) (hm : m.Valid)
    (hrest : ∀ n ∈ rest, n.Valid) (h : ¬ ∀ n ∈ rest, m.sameShape n = true) :
    ∃ fault, extremeMatrix f pick m (rest.map .matrix) = .error fault := by
  -- Induction on the matrices. The extreme so far has the shape of the first one, so the first
  -- matrix of another shape is found.
  induction rest generalizing m with
  | nil => exact absurd nofun h
  | cons n rest ih =>
    obtain ⟨hn, hrest⟩ := List.forall_mem_cons.mp hrest
    by_cases hshape : m.sameShape n = true
    · obtain ⟨picked, hlift, hstep⟩ := extremeMatrix_cons f pick hm hn hshape
      rw [List.map_cons, hstep]
      refine ih hlift.valid hrest fun hall => h (List.forall_mem_cons.mpr ⟨hshape, fun k hk => ?_⟩)
      exact Matrix.sameShape_trans (Matrix.sameShape_symm hlift.shape) (hall k hk)
    · rw [List.map_cons, extremeMatrix, if_neg hshape]
      exact ⟨_, rfl⟩

/-- `Min` and `Max` of numbers pick one from left to right. -/
theorem invoke_numbers {reduce : Matrix → Float}
    (hrun : ∀ args, f.run args = runExtreme f pick reduce args) (x : Float) (ys : List Float) :
    f.invoke (.number x :: ys.map .number) = .number (ys.foldl pick x) := by
  refine invoke_of_run (List.forall_mem_cons.mpr ⟨rfl, fun v hv => ?_⟩) ?_
  · obtain ⟨y, -, rfl⟩ := List.mem_map.mp hv
    rfl
  · rw [hrun, runExtreme, extremeNumber_numbers]
    rfl

/-- Both extremes are one and the same definition, with what they pick and how they reduce a lone
matrix. -/
theorem exists_runExtreme (h : f = .min ∨ f = .max) :
    ∃ pick reduce, ∀ args, f.run args = runExtreme f pick reduce args := by
  obtain rfl | rfl := h
  · exact ⟨_, _, fun _ => rfl⟩
  · exact ⟨_, _, fun _ => rfl⟩

namespace Application

/-- `Min` and `Max` of two or more matrices. -/
theorem gives_extreme (h : f = .min ∨ f = .max) {first second : Matrix} (hfirst : first.Valid)
    (hsecond : second.Valid) (hrest : ∀ n ∈ rest, n.Valid) :
    (call f (.matrix first :: .matrix second :: rest.map .matrix)).Gives
      (call f (.matrix first :: .matrix second :: rest.map .matrix)).IsLift := by
  obtain ⟨pick, reduce, hrun⟩ := exists_runExtreme h
  have hmatrices : (call f (.matrix first :: .matrix second :: rest.map .matrix)).matrices =
      first :: second :: rest := by
    simp [matrices, Value.matrix?, List.filterMap_map, Function.comp_def]
  have hvalues : ∀ v ∈ Value.matrix first :: .matrix second :: rest.map .matrix,
      v.isError = false := by
    simp [Value.isError]
  have hbody : f.run (.matrix first :: .matrix second :: rest.map .matrix) = (do
      return .matrix (← extremeMatrix f pick first ((second :: rest).map .matrix))) := hrun _
  -- with one shape the run over the matrices goes to its end, otherwise it stops with a fault
  by_cases hshapes : ∀ n ∈ second :: rest, first.sameShape n = true
  · obtain ⟨out, hout, hlift⟩ := extremeMatrix_lifts f pick hfirst fun n hn =>
      ⟨List.forall_mem_cons.mpr ⟨hsecond, hrest⟩ n hn, hshapes n hn⟩
    rw [hout] at hbody
    refine .of_matrix ((sameShapes_iff hmatrices).mpr hshapes) (invoke_of_run hvalues hbody)
      (isLift_of_construction hlift ?_ fun row col channel => ?_)
    · rw [hmatrices]
      exact List.forall_mem_cons.mpr ⟨Matrix.sameShape_refl first, hshapes⟩
    -- at one place the call on the entries runs through the same picks
    · have hnumbers := invoke_numbers hrun (first.entry row col channel)
        ((second :: rest).map fun n => n.entry row col channel)
      simpa [entryAt, value, Value.entryAt, Function.comp_def] using hnumbers
  · obtain ⟨fault, hfault⟩ := extremeMatrix_fails f pick hfirst
      (List.forall_mem_cons.mpr ⟨hsecond, hrest⟩) hshapes
    rw [hfault] at hbody
    exact .of_fault (mt (sameShapes_iff hmatrices).mp hshapes) (invoke_of_fault hvalues hbody)

/-- `Abs` of a matrix. -/
theorem gives_abs (hm : m.Valid) :
    (call .abs [.matrix m]).Gives (call .abs [.matrix m]).IsLift := by
  refine gives_of_map hm Float.abs rfl (fun out hout => ?_) fun _ _ _ => rfl
  have hvalues : ∀ v ∈ [Value.matrix m], v.isError = false :=
    List.forall_mem_singleton.mpr rfl
  have hbody : Builtin.abs.run [.matrix m] = (do
      return .matrix (← built (m.map Float.abs))) := rfl
  rw [hout] at hbody
  exact invoke_of_run hvalues hbody

/-- Arithmetic, the powers of a matrix, `Abs` and the extremes of matrices are the same operations
on numbers at every entry, and comparisons with a matrix the same comparisons at every channel of a
pixel. All of them fail exactly if two of their matrices differ in shape. -/
theorem application_pointwise (app : Application) (hvalid : ∀ m ∈ app.matrices, m.Valid) :
    (app.Entrywise → app.Gives app.IsLift) ∧ (app.Comparison → app.Gives app.IsMask) := by
  constructor
  · intro h
    -- arithmetic with a number on either side, or two matrices; the other functions of one matrix;
    -- the extremes
    cases h with
    | numberMatrix h x m =>
      obtain ⟨f, hf⟩ := exists_arithmetic h
      exact gives_of_map (hvalid m List.mem_cons_self) (fun y => f x y) rfl
        (fun out hout => (hf ..).trans (congrArg ofConstruction hout)) fun _ _ _ => hf ..
    | matrixNumber h m x =>
      obtain ⟨f, hf⟩ := exists_arithmetic h
      exact gives_of_map (hvalid m List.mem_cons_self) (fun y => f y x) rfl
        (fun out hout => (hf ..).trans (congrArg ofConstruction hout)) fun _ _ _ => hf ..
    | matrixMatrix h a b =>
      exact gives_arithmetic h (hvalid a List.mem_cons_self) (hvalid b (.tail _ List.mem_cons_self))
    | power m x =>
      exact gives_of_map (hvalid m List.mem_cons_self) (fun y => y.pow x) rfl
        (fun out hout => congrArg ofConstruction hout) fun _ _ _ => rfl
    | abs m => exact gives_abs (hvalid m List.mem_cons_self)
    | extreme h first second rest =>
      refine gives_extreme h (hvalid first ?_) (hvalid second ?_) fun n hn => hvalid n ?_
      all_goals simp_all [matrices, Value.matrix?, List.filterMap_map, Function.comp_def]
  · intro h
    -- a comparison with a number has one matrix, so no shape can differ
    cases h with
    | matrixNumber h m x =>
      obtain ⟨test, htest⟩ := exists_comparison h
      exact .of_matrix ((sameShapes_iff rfl).mpr nofun) (htest ..)
        (isMask_maskBy (hvalid m List.mem_cons_self) _ (shape_of_single rfl) fun _ _ _ => htest ..)
    | matrixMatrix h a b => exact gives_comparison h (hvalid a List.mem_cons_self)

/-- The greatest of three matrices of different kinds, two matrices that cannot be subtracted, and a
pixel with a channel that is not less than 3. -/
theorem application_pointwise_max :
    (∃ out : Matrix, Builtin.max.invoke [.matrix ⟨.gray, 1, 2, 1, #[1, 5]⟩,
        .matrix ⟨.plain, 1, 2, 1, #[4, 2]⟩, .matrix ⟨.mask, 1, 2, 1, #[0, 255]⟩] = .matrix out ∧
      out.kind = .plain ∧ out.get? 0 1 0 = some 255) ∧
    (Operator.minus.compute (.matrix ⟨.gray, 1, 2, 1, #[1, 5]⟩)
      (.matrix ⟨.gray, 2, 1, 1, #[1, 5]⟩)).isError = true ∧
    ∃ out : Matrix, Operator.less.compute (.matrix ⟨.grayAlpha, 1, 1, 2, #[1, 5]⟩) (.number 3) =
      .matrix out ∧ out.kind = .mask ∧ out.get? 0 0 0 = some 0 := by
  have hgray : Matrix.Valid ⟨.gray, 1, 2, 1, #[1, 5]⟩ := ⟨by decide, by decide, rfl, rfl, nofun⟩
  have htall : Matrix.Valid ⟨.gray, 2, 1, 1, #[1, 5]⟩ := ⟨by decide, by decide, rfl, rfl, nofun⟩
  have hplain : Matrix.Valid ⟨.plain, 1, 2, 1, #[4, 2]⟩ := ⟨by decide, by decide, rfl, rfl, nofun⟩
  have hmask : Matrix.Valid ⟨.mask, 1, 2, 1, #[0, 255]⟩ :=
    ⟨by decide, by decide, rfl, rfl, fun _ => by simp; decide⟩
  have hpixel : Matrix.Valid ⟨.grayAlpha, 1, 1, 2, #[1, 5]⟩ :=
    ⟨by decide, by decide, rfl, rfl, nofun⟩
  refine ⟨?_, ?_, ?_⟩
  · have h := (application_pointwise (.call .max [.matrix ⟨.gray, 1, 2, 1, #[1, 5]⟩,
        .matrix ⟨.plain, 1, 2, 1, #[4, 2]⟩, .matrix ⟨.mask, 1, 2, 1, #[0, 255]⟩])
      (by simp [matrices, Value.matrix?, hgray, hplain, hmask])).1 (.extreme (.inr rfl) _ _ [_])
    obtain ⟨out, hvalue, hout⟩ :=
      h.gives (by simp [SameShapes, matrices, Value.matrix?, Matrix.sameShape])
    obtain ⟨hrows, hcols, hchannels⟩ := Matrix.sameShape_iff.mp (hout.shape _ List.mem_cons_self)
    obtain ⟨x, hx, hnumber⟩ := hout.entry 0 1 0 (Nat.lt_of_lt_of_eq Nat.one_pos hrows.symm)
      (Nat.lt_of_lt_of_eq Nat.one_lt_two hcols.symm) (Nat.lt_of_lt_of_eq Nat.one_pos hchannels.symm)
    have hwhite : Value.number 255 = .number x := hnumber
    exact ⟨out, hvalue, hout.plain, hx.trans (congrArg some (Value.number.inj hwhite).symm)⟩
  · have h := (application_pointwise (.operation .minus (.matrix ⟨.gray, 1, 2, 1, #[1, 5]⟩)
        (.matrix ⟨.gray, 2, 1, 1, #[1, 5]⟩))
      (by simp [matrices, Value.matrix?, hgray, htall])).1 (.matrixMatrix rfl _ _)
    exact h.fails.mpr (by simp [SameShapes, matrices, Value.matrix?, Matrix.sameShape])
  · have h := (application_pointwise
        (.operation .less (.matrix ⟨.grayAlpha, 1, 1, 2, #[1, 5]⟩) (.number 3))
      (by simp [matrices, Value.matrix?, hpixel])).2 (.matrixNumber rfl _ _)
    obtain ⟨out, hvalue, hout⟩ :=
      h.gives (by simp [SameShapes, matrices, Value.matrix?, Matrix.sameShape])
    obtain ⟨hrows, hcols⟩ : out.rows = 1 ∧ out.cols = 1 := by
      simpa [Matrix.sameSize] using hout.size _ List.mem_cons_self
    obtain ⟨hget, hiff⟩ := hout.pixel 0 0 (Nat.lt_of_lt_of_eq Nat.one_pos hrows.symm)
      (Nat.lt_of_lt_of_eq Nat.one_pos hcols.symm)
    refine ⟨out, hvalue, hout.mask, hget.resolve_left fun hwhite => ?_⟩
    have hfive : Value.boolean false = .boolean true :=
      (hiff _ List.mem_cons_self).mp hwhite 1 (by decide)
    cases hfive

end Application

end PixelCalc
