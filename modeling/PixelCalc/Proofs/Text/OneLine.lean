import PixelCalc.Binary64.Text

/-!
# Texts of one line

A text of one line holds no line end. Joining such texts gives such a text, and numbers are written
in one line, so a text put together from parts is one line if the parts that are quoted in it are.

- `OneLine`: the text has no line end; it is pushed through appended and joined texts by `simp`.
- `oneLine_digits`, `oneLine_plainText`: numbers as texts.
-/

namespace PixelCalc
namespace Text

/-- The text has no line end. -/
def OneLine (text : List Char) : Prop :=
  '\n' ∉ text

variable {c : Char} {cs ds : List Char} {css : List (List Char)} {s : String}

@[simp] theorem oneLine_nil : OneLine [] :=
  List.not_mem_nil

@[simp] theorem oneLine_cons_iff : OneLine (c :: cs) ↔ c ≠ '\n' ∧ OneLine cs := by
  rw [OneLine, List.mem_cons, not_or, OneLine, ne_comm]

@[simp] theorem oneLine_append_iff : OneLine (cs ++ ds) ↔ OneLine cs ∧ OneLine ds := by
  rw [OneLine, List.mem_append, not_or, OneLine, OneLine]

@[simp] theorem oneLine_toString_iff : OneLine (toString s).toList ↔ OneLine s.toList :=
  Iff.rfl

@[simp] theorem oneLine_char_iff : OneLine (toString c).toList ↔ c ≠ '\n' := by
  have htext : (toString c).toList = [c] := String.toList_singleton c
  rw [htext, oneLine_cons_iff]
  exact and_iff_left oneLine_nil

/-- A text whose characters all pass a test that a line feed fails. -/
theorem oneLine_of_all {p : Char → Bool} (hp : p '\n' = false) (h : ∀ c ∈ cs, p c = true) :
    OneLine cs := by
  intro hmem
  have hline := h '\n' hmem
  rw [hp] at hline
  cases hline

/-- A long literal is not spelled out by `simp`, which takes the kernel too long. -/
theorem oneLine_literal (cs : List Char) (h : (cs.all fun c => c ≠ '\n') = true) :
    OneLine (String.ofList cs).toList := by
  rw [String.toList_ofList]
  exact oneLine_of_all rfl (List.all_eq_true.mp h)

/-- A text made of characters of a one-line text, such as a part of it. -/
theorem OneLine.of_subset (h : OneLine cs) (hsub : ds ⊆ cs) : OneLine ds :=
  fun hmem => h (hsub hmem)

/-- Texts joined by a text of one line are one line if each of them is. -/
theorem oneLine_intercalate_iff (hds : OneLine ds) :
    OneLine (ds.intercalate css) ↔ ∀ cs ∈ css, OneLine cs := by
  induction css with
  | nil => simp
  | cons cs css ih =>
    cases css with
    | nil => simp
    | cons cs' css =>
      rw [List.intercalate_cons_cons, oneLine_append_iff, oneLine_append_iff, List.forall_mem_cons]
      exact and_congr (and_iff_left hds) ih

/-! ### Numbers -/

@[simp] theorem oneLine_digits (n : Nat) : OneLine (Nat.toDigits 10 n) :=
  oneLine_of_all rfl fun _ => Nat.isDigit_of_mem_toDigits (by decide) (by decide)

theorem oneLine_zeros (n : Nat) : OneLine (List.replicate n '0') :=
  fun hmem => absurd (List.eq_of_mem_replicate hmem) (by decide)

/-- A decimal is digits, zeros and a point, wherever they stand. -/
theorem oneLine_positionalText (d : Binary64.Decimal) :
    OneLine (Binary64.Layout.plain.positionalText d).toList := by
  have hdigits : OneLine (Binary64.digitChars d.digits) := oneLine_digits d.digits
  unfold Binary64.Layout.positionalText
  dsimp only
  split
  · simp [hdigits, oneLine_zeros, Binary64.Layout.plain]
  · split
    · have htake := hdigits.of_subset (List.take_subset
        ((Binary64.digitChars d.digits).length + d.exponent).toNat (Binary64.digitChars d.digits))
      have hdrop := hdigits.of_subset (List.drop_subset
        ((Binary64.digitChars d.digits).length + d.exponent).toNat (Binary64.digitChars d.digits))
      simp [htake, hdrop]
    · simp [hdigits, oneLine_zeros]

/-- A float is written on one line, infinities and the rest included. -/
@[simp] theorem oneLine_plainText (x : Float) : OneLine (Binary64.plainText x).toList := by
  have hbody : OneLine (if x.isInf then "inf" else Binary64.Layout.plain.decimalText
      ((Binary64.magnitude x).shortest Binary64.Layout.plain.tie)).toList := by
    split
    · simp
    · exact oneLine_positionalText _
  unfold Binary64.plainText Binary64.Layout.text
  split
  · simp
  · dsimp only
    split
    · rw [String.toList_append]
      exact oneLine_append_iff.mpr ⟨by simp, hbody⟩
    · exact hbody

end Text
end PixelCalc
