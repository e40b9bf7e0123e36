import PixelCalc.Binary64.Order
import PixelCalc.Binary64.Text
import PixelCalc.Matrix.Kind
import PixelCalc.Value.Range

/-!
# Matrices

A matrix is rows × columns × channels of numbers with a kind. The numbers are stored row by row,
the channels of a pixel side by side.

- `Matrix.entry`: the number at a row, a column and a channel.
- `Matrix.Valid`: the shape agrees with the data and with the kind.
- `Matrix.check`, `Matrix.ofValues`: matrices from the outside, checked.
- `Matrix.tabulate`: a matrix from its entries; `entry_tabulate` is its law, and `ext_of_entry` says
  that entries determine a matrix.
- `Assertion`: what constructions without a check take for granted.
- `map`, `zipWith`, `maskBy`: arithmetic and comparisons at every entry or pixel.
- `block`, `replaceChannels`, `beside`: parts of matrices, and matrices from parts.
-/

namespace PixelCalc

/-- A matrix of numbers. -/
structure Matrix where
  kind : MatrixKind
  rows : Nat
  cols : Nat
  channels : Nat
  /-- The numbers row by row, the channels of a pixel side by side. -/
  data : Array Float

/-- Why numbers do not make a matrix. -/
inductive MatrixError where
  | channelCount (kind : MatrixKind) (channels : Nat)
  | empty (rows cols : Nat)
  | maskValue (found : Float)
  | tooLarge (rows cols channels : Nat)
  | dataLength (rows cols channels found : Nat)

/-- The message of a matrix error. -/
def MatrixError.message : MatrixError → String
  | channelCount kind channels => s!"a {kind.name} matrix cannot have {channels} channel(s)"
  | empty rows cols => s!"a matrix needs at least one row and one column, got {rows}x{cols}"
  | maskValue found => s!"a Mask matrix can only hold 0 or 255, found {Binary64.plainText found}"
  | tooLarge rows cols channels => s!"a {rows}x{cols}x{channels} matrix is too large"
  | dataLength rows cols channels found =>
    s!"{rows}x{cols}x{channels} matrix needs {rows * cols * channels} values " ++
      s!"but {found} were given"

/-- A condition that a construction without a check takes for granted. -/
inductive Assertion where
  /-- A plain matrix has as many channels as plain matrices may have. -/
  | plainChannels
  /-- Matrices that are combined have one shape. -/
  | sameShape
deriving Repr, DecidableEq

/-- The message that an assertion does not hold. -/
def Assertion.message : Assertion → String
  | plainChannels => "assertion failed: MatrixType::Matrix.accepts(data.dim().2)"
  | sameShape => "assertion failed: self.same_shape(other)"

namespace Matrix

/-! ### Entries -/

/-- Where an entry is stored. -/
def index (m : Matrix) (row col channel : Nat) : Nat :=
  (row * m.cols + col) * m.channels + channel

/-- The number at a row, a column and a channel of the matrix. -/
def entry (m : Matrix) (row col channel : Nat) : Float :=
  m.data.getD (m.index row col channel) 0

/-- The number at a row, a column and a channel, if the matrix has them. -/
def get? (m : Matrix) (row col channel : Nat) : Option Float :=
  if row < m.rows ∧ col < m.cols ∧ channel < m.channels then some (m.entry row col channel)
  else none

/-- The text of a matrix: its size and kind. -/
def text (m : Matrix) : String :=
  s!"[{m.channels}-channel {m.kind.name} Mat {m.rows}x{m.cols}]"

/-- Both matrices have the same rows, columns and channels. -/
def sameShape (a b : Matrix) : Bool :=
  a.rows == b.rows && a.cols == b.cols && a.channels == b.channels

/-- Both matrices have the same rows and columns. -/
def sameSize (a b : Matrix) : Bool :=
  a.rows == b.rows && a.cols == b.cols

/-! ### Validity -/

/-- A number that a mask may hold. -/
def isMaskValue (x : Float) : Bool :=
  x == 0 || x == 255

/-- The shape of a matrix agrees with its data and its kind. -/
structure Valid (m : Matrix) : Prop where
  rows_pos : 0 < m.rows
  cols_pos : 0 < m.cols
  accepts : m.kind.accepts m.channels = true
  size : m.data.size = m.rows * m.cols * m.channels
  mask : m.kind = .mask → ∀ x ∈ m.data, isMaskValue x = true

/-- The matrix itself, if it has a pixel and its kind accepts its channels and its numbers. -/
def check (m : Matrix) : Except MatrixError Matrix :=
  if m.rows = 0 ∨ m.cols = 0 then .error (.empty m.rows m.cols)
  else if !m.kind.accepts m.channels then .error (.channelCount m.kind m.channels)
  else
    match if m.kind = .mask then m.data.find? fun x => !isMaskValue x else none with
    | some found => .error (.maskValue found)
    | none => .ok m

/-- The product of three sizes has to be below `2^64` at each step, that of the sizes that are not
zero below `2^63`. -/
def ofValues (kind : MatrixKind) (rows cols channels : Nat) (values : List Float) :
    Except MatrixError Matrix :=
  if UInt64.size ≤ rows * cols ∨ UInt64.size ≤ rows * cols * channels then
    .error (.tooLarge rows cols channels)
  else if values.length ≠ rows * cols * channels ∨
      UInt64.size / 2 ≤ max rows 1 * max cols 1 * max channels 1 then
    .error (.dataLength rows cols channels values.length)
  else
    check ⟨kind, rows, cols, channels, values.toArray⟩

/-- A matrix that holds one number everywhere. -/
def filled (kind : MatrixKind) (rows cols channels : Nat) (x : Float) : Except MatrixError Matrix :=
  check ⟨kind, rows, cols, channels, Array.replicate (rows * cols * channels) x⟩

/-- The matrix with another kind and the same numbers. -/
def retag (m : Matrix) (kind : MatrixKind) : Matrix :=
  { m with kind }

/-- The matrix with another kind, if that kind accepts it. -/
def withKind (m : Matrix) (kind : MatrixKind) : Except MatrixError Matrix :=
  (m.retag kind).check

/-- The matrix with the kind of plain numbers. Its channels are taken to be few enough. -/
def generic (m : Matrix) : Except Assertion Matrix :=
  if MatrixKind.plain.accepts m.channels then .ok (m.retag .plain) else .error .plainChannels

/-- What has passed the check with data of the right length is valid. -/
theorem valid_of_check {m m' : Matrix} (hsize : m.data.size = m.rows * m.cols * m.channels)
    (h : m.check = .ok m') : m' = m ∧ m.Valid := by
  unfold check at h
  split at h
  · cases h
  · rename_i hdims
    split at h
    · cases h
    · rename_i hchannels
      split at h
      · cases h
      · rename_i hfound
        cases h
        refine ⟨rfl, by omega, by omega, by simpa using hchannels, hsize, fun hmask x hx => ?_⟩
        rw [if_pos hmask] at hfound
        simpa using Array.find?_eq_none.mp hfound x hx

/-- A valid matrix passes the check. -/
theorem check_of_valid {m : Matrix} (h : m.Valid) : m.check = .ok m := by
  have hrows := h.rows_pos
  have hcols := h.cols_pos
  unfold check
  rw [if_neg (by omega), if_neg (by simp [h.accepts])]
  have hnone : (if m.kind = .mask then m.data.find? fun x => !isMaskValue x else none) = none := by
    split
    · rename_i hmask
      exact Array.find?_eq_none.mpr fun x hx => by simp [h.mask hmask x hx]
    · rfl
  rw [hnone]

/-! ### Tabulation -/

/-- The matrix whose entries are the values of a function. -/
def tabulate (kind : MatrixKind) (rows cols channels : Nat) (f : Nat → Nat → Nat → Float) :
    Matrix where
  kind := kind
  rows := rows
  cols := cols
  channels := channels
  data := Array.ofFn fun i : Fin (rows * cols * channels) =>
    f (i / channels / cols) (i / channels % cols) (i % channels)

@[simp] theorem size_tabulate (kind : MatrixKind) (rows cols channels : Nat)
    (f : Nat → Nat → Nat → Float) :
    (tabulate kind rows cols channels f).data.size = rows * cols * channels := by
  simp [tabulate]

/-- An entry inside a matrix is stored inside its data. -/
theorem index_lt {rows cols channels row col channel : Nat} (hr : row < rows) (hc : col < cols)
    (hk : channel < channels) :
    (row * cols + col) * channels + channel < rows * cols * channels := by
  have hpixel : row * cols + col < rows * cols :=
    calc row * cols + col < row * cols + cols := by omega
      _ = (row + 1) * cols := by rw [Nat.succ_mul]
      _ ≤ rows * cols := Nat.mul_le_mul_right _ hr
  calc (row * cols + col) * channels + channel
      < (row * cols + col) * channels + channels := by omega
    _ = (row * cols + col + 1) * channels := by rw [Nat.succ_mul]
    _ ≤ rows * cols * channels := Nat.mul_le_mul_right _ hpixel

/-- The entries of a tabulated matrix are the values of the function. -/
theorem entry_tabulate {kind : MatrixKind} {rows cols channels row col channel : Nat}
    {f : Nat → Nat → Nat → Float} (hr : row < rows) (hc : col < cols) (hk : channel < channels) :
    (tabulate kind rows cols channels f).entry row col channel = f row col channel := by
  have hi := index_lt hr hc hk
  have hdiv : ((row * cols + col) * channels + channel) / channels = row * cols + col := by
    rw [Nat.mul_comm, Nat.mul_add_div (by omega), Nat.div_eq_of_lt hk, Nat.add_zero]
  have hmod : ((row * cols + col) * channels + channel) % channels = channel := by
    rw [Nat.mul_comm, Nat.mul_add_mod, Nat.mod_eq_of_lt hk]
  have hrow : (row * cols + col) / cols = row := by
    rw [Nat.mul_comm, Nat.mul_add_div (by omega), Nat.div_eq_of_lt hc, Nat.add_zero]
  have hcol : (row * cols + col) % cols = col := by
    rw [Nat.mul_comm, Nat.mul_add_mod, Nat.mod_eq_of_lt hc]
  simp only [entry, index, tabulate, Array.getD_eq_getD_getElem?, Array.getElem?_ofFn]
  rw [dif_pos hi]
  simp only [Option.getD_some, hdiv, hmod, hrow, hcol]

/-- Two matrices of one kind and shape with the same entries are the same. -/
theorem ext_of_entry {a b : Matrix} (hkind : a.kind = b.kind) (hrows : a.rows = b.rows)
    (hcols : a.cols = b.cols) (hchannels : a.channels = b.channels)
    (ha : a.data.size = a.rows * a.cols * a.channels)
    (hb : b.data.size = b.rows * b.cols * b.channels)
    (hentry : ∀ r c k, r < a.rows → c < a.cols → k < a.channels → a.entry r c k = b.entry r c k) :
    a = b := by
  obtain ⟨kind, rows, cols, channels, adata⟩ := a
  obtain ⟨_, _, _, _, bdata⟩ := b
  simp only at hkind hrows hcols hchannels ha hb hentry
  subst hkind hrows hcols hchannels
  congr 1
  apply Array.ext (by rw [ha, hb])
  intro i hia hib
  rw [ha] at hia
  -- each index of the data is that of an entry, with the divisions that `tabulate` makes
  have hchannels : 0 < channels := Nat.pos_of_ne_zero fun h => by simp [h] at hia
  have hpixel : i / channels < rows * cols := Nat.div_lt_of_lt_mul (by rwa [Nat.mul_comm])
  have hcols : 0 < cols := Nat.pos_of_ne_zero fun h => by simp [h] at hpixel
  have hrow : i / channels / cols < rows := Nat.div_lt_of_lt_mul (by rwa [Nat.mul_comm])
  have h := hentry (i / channels / cols) (i / channels % cols) (i % channels) hrow
    (Nat.mod_lt _ hcols) (Nat.mod_lt _ hchannels)
  have hindex : (i / channels / cols * cols + i / channels % cols) * channels + i % channels = i := by
    rw [Nat.mul_comm _ cols, Nat.div_add_mod, Nat.mul_comm, Nat.div_add_mod]
  simpa [entry, index, hindex, Array.getD_eq_getD_getElem?, ha, hb, hia] using h

/-! ### Numbers at every entry -/

/-- The matrix of the same kind with `f` applied to every number. -/
def mapEntries (f : Float → Float) (m : Matrix) : Matrix :=
  { m with data := m.data.map f }

/-- Applies `f` to every number. The result is a plain matrix. -/
def map (f : Float → Float) (m : Matrix) : Except Assertion Matrix :=
  (m.mapEntries f).generic

/-- Combines the numbers of two matrices, which are taken to have one shape. The result is a plain
matrix. -/
def zipWith (f : Float → Float → Float) (a b : Matrix) : Except Assertion Matrix :=
  if a.sameShape b then generic { a with data := Array.zipWith f a.data b.data }
  else .error .sameShape

/-- The mask of the size of `m` that is 255 at the pixels whose channels all satisfy `p`. -/
def maskBy (m : Matrix) (p : Nat → Nat → Nat → Bool) : Matrix :=
  tabulate .mask m.rows m.cols 1 fun row col _ =>
    if (List.range m.channels).all fun channel => p row col channel then 255 else 0

/-- The mask of the pixels at which `p` holds of every channel. -/
def maskWhere (p : Float → Bool) (m : Matrix) : Matrix :=
  m.maskBy fun row col channel => p (m.entry row col channel)

/-- The mask of the pixels at which `p` holds of every channel of two matrices, which are taken to
have one shape. -/
def maskZip (p : Float → Float → Bool) (a b : Matrix) : Except Assertion Matrix :=
  if a.sameShape b then
    .ok (a.maskBy fun row col channel => p (a.entry row col channel) (b.entry row col channel))
  else .error .sameShape

/-- The least number of a matrix; NaN is passed over. -/
def least (m : Matrix) : Float :=
  m.data.foldl Binary64.smaller (1 / 0)

/-- The greatest number of a matrix; NaN is passed over. -/
def greatest (m : Matrix) : Float :=
  m.data.foldl Binary64.larger (-1 / 0)

/-! ### Parts -/

/-- The entries in a span of rows, of columns and of channels. -/
def block (m : Matrix) (kind : MatrixKind) (rows cols channels : Span) : Matrix :=
  tabulate kind rows.length cols.length channels.length fun row col channel =>
    m.entry (rows.start + row) (cols.start + col) (channels.start + channel)

/-- The channels in a span, at every pixel. -/
def channelBlock (m : Matrix) (kind : MatrixKind) (channels : Span) : Matrix :=
  m.block kind (.all m.rows) (.all m.cols) channels

/-- The matrix with the channels from `first` on replaced by those of `r`. -/
def replaceChannels (m : Matrix) (kind : MatrixKind) (first : Nat) (r : Matrix) : Matrix :=
  tabulate kind m.rows m.cols m.channels fun row col channel =>
    if first ≤ channel ∧ channel < first + r.channels then r.entry row col (channel - first)
    else m.entry row col channel

/-- The channels of `a` followed by those of `b`, as plain numbers. -/
def beside (a b : Matrix) : Matrix :=
  tabulate .plain a.rows a.cols (a.channels + b.channels) fun row col channel =>
    if channel < a.channels then a.entry row col channel
    else b.entry row col (channel - a.channels)

/-- The channels of several matrices one after the other, as a plain matrix. -/
def stack (first : Matrix) (rest : List Matrix) : Except Assertion Matrix :=
  (rest.foldl beside first).generic

end Matrix

end PixelCalc
