import PixelCalc.Session

/-!
# Lines

A list is cut at every separator, so the pieces hold none, and a list that is appended behind a
separator adds its own pieces. The encoding of a character other than a line end holds no byte of
that value, so cutting the bytes of a text at such bytes and cutting the text at its line ends give
the same lines.

- `pieces_line`, `pieces_append_cons`: pieces in front of a separator.
- `not_mem_of_mem_pieces`: pieces hold no separator.
- `decoded_lines`: the lines of the bytes of a text.
-/

namespace PixelCalc
namespace Session

/-! ### Pieces -/

section

variable {α : Type} [DecidableEq α] {s x : α} {xs ys p : List α} {ps : List (List α)}

theorem pieces_ne_nil (s : α) (xs : List α) : pieces s xs ≠ [] := by
  fun_cases pieces s xs <;> exact List.cons_ne_nil _ _

/-- A separator ends an empty first piece. -/
theorem pieces_cons_self (s : α) (xs : List α) : pieces s (s :: xs) = [] :: pieces s xs := by
  rw [pieces, if_pos rfl]

theorem pieces_cons_of_ne (hx : x ≠ s) (h : pieces s xs = p :: ps) :
    pieces s (x :: xs) = (x :: p) :: ps := by
  rw [pieces, if_neg hx, h]

/-- What holds no separator is a part of the first piece. -/
theorem pieces_append (hxs : s ∉ xs) (h : pieces s ys = p :: ps) :
    pieces s (xs ++ ys) = (xs ++ p) :: ps := by
  induction xs with
  | nil => exact h
  | cons x xs ih =>
    rw [List.mem_cons, not_or] at hxs
    exact pieces_cons_of_ne (Ne.symm hxs.1) (ih hxs.2)

/-- What holds no separator and stands in front of one is the first piece. -/
theorem pieces_line (hxs : s ∉ xs) (ys : List α) :
    pieces s (xs ++ s :: ys) = xs :: pieces s ys := by
  rw [pieces_append hxs (pieces_cons_self s ys), List.append_nil]

/-- Lists joined with a separator between them have the pieces of both. -/
theorem pieces_append_cons (s : α) (xs ys : List α) :
    pieces s (xs ++ s :: ys) = pieces s xs ++ pieces s ys := by
  induction xs with
  | nil => exact pieces_cons_self s ys
  | cons x xs ih =>
    rw [List.cons_append]
    by_cases hx : x = s
    · rw [hx, pieces_cons_self, pieces_cons_self, ih, List.cons_append]
    · -- the element joins the first piece, on both sides
      obtain ⟨p, ps, hp⟩ := List.exists_cons_of_ne_nil (pieces_ne_nil s xs)
      rw [pieces_cons_of_ne hx hp, pieces_cons_of_ne hx (ih.trans (congrArg (· ++ _) hp))]
      rfl

/-- Pieces do not contain the separator. -/
theorem not_mem_of_mem_pieces (h : p ∈ pieces s xs) : s ∉ p := by
  induction xs generalizing p with
  | nil =>
    cases List.mem_singleton.mp h
    exact List.not_mem_nil
  | cons x xs ih =>
    by_cases hx : x = s
    · rw [hx, pieces_cons_self] at h
      rcases List.mem_cons.mp h with rfl | h
      · exact List.not_mem_nil
      · exact ih h
    · obtain ⟨q, qs, hq⟩ := List.exists_cons_of_ne_nil (pieces_ne_nil s xs)
      rw [hq] at ih
      rw [pieces_cons_of_ne hx hq] at h
      rcases List.mem_cons.mp h with rfl | h
      · rw [List.mem_cons, not_or]
        exact ⟨Ne.symm hx, ih List.mem_cons_self⟩
      · exact ih (List.mem_cons_of_mem _ h)

end

/-! ### Bytes -/

/-- The loop behind `ByteArray.toList` collects the bytes from an index on. -/
theorem toList_loop (bytes : ByteArray) (i : Nat) (before : List UInt8) :
    ByteArray.toList.loop bytes i before = before.reverse ++ bytes.data.toList.drop i := by
  fun_induction ByteArray.toList.loop bytes i before with
  | case1 i before hi ih =>
    have hlength : i < bytes.data.toList.length := hi
    have hget : bytes.get! i = bytes.data.toList[i] := getElem!_pos bytes.data i hi
    rw [ih, hget, List.drop_eq_getElem_cons hlength, List.reverse_cons, List.append_assoc]
    rfl
  | case2 i before hi =>
    rw [List.drop_eq_nil_of_le (Nat.le_of_not_lt hi), List.append_nil]

/-- The bytes of a text are the bytes of its characters, one after another. -/
theorem toList_utf8Encode (cs : List Char) :
    cs.utf8Encode.toList = cs.flatMap String.utf8EncodeChar := by
  rw [ByteArray.toList, toList_loop, List.utf8Encode, List.toList_data_toByteArray]
  rfl

/-- All bytes of a longer encoding are above those of the first characters. -/
theorem newline_not_mem_utf8EncodeChar {c : Char} (hc : c ≠ '\n') :
    10 ∉ String.utf8EncodeChar c := by
  have hbyte {n : Nat} (hn : n < 256) (hne : n ≠ 10) : (10 : UInt8) ≠ UInt8.ofNat n := by
    intro heq
    have hnat := congrArg UInt8.toNat heq
    rw [UInt8.toNat_ofNat_of_lt' hn] at hnat
    exact hne hnat.symm
  have hval : c.val.toNat ≠ 10 := fun hval => hc (Char.ext (UInt32.toNat_inj.mp hval))
  fun_cases String.utf8EncodeChar c <;>
    simp only [List.mem_cons, List.not_mem_nil, or_false, not_or] <;> and_intros <;>
    exact hbyte (by omega) (by omega)

/-- Splitting the bytes at line feeds is splitting the text at line feeds: the byte of a line feed
occurs in the encoding of no other character. -/
theorem pieces_utf8 (cs : List Char) :
    pieces 10 (cs.flatMap String.utf8EncodeChar) =
      (pieces '\n' cs).map fun line => line.flatMap String.utf8EncodeChar := by
  induction cs with
  | nil => rfl
  | cons c cs ih =>
    by_cases hc : c = '\n'
    · rw [hc, pieces_cons_self, List.map_cons, ← ih]
      exact pieces_cons_self 10 _
    · obtain ⟨line, more, hline⟩ := List.exists_cons_of_ne_nil (pieces_ne_nil '\n' cs)
      rw [hline, List.map_cons] at ih
      rw [pieces_cons_of_ne hc hline, List.flatMap_cons, List.map_cons, List.flatMap_cons]
      exact pieces_append (newline_not_mem_utf8EncodeChar hc) ih

/-- Encoded characters decode to the text that they came from, so every line of an input is read. -/
theorem fromUTF8?_encoded (cs : List Char) :
    String.fromUTF8? ⟨(cs.flatMap String.utf8EncodeChar).toArray⟩ = some (String.ofList cs) := by
  have hbytes : (⟨(cs.flatMap String.utf8EncodeChar).toArray⟩ : ByteArray) = cs.utf8Encode := by
    refine ByteArray.ext (Array.toList_inj.mp ?_)
    rw [List.utf8Encode, List.toList_data_toByteArray]
  rw [hbytes, String.fromUTF8?, dif_pos ByteArray.isValidUTF8_utf8Encode]
  rfl

/-- The bytes of a text are cut into the bytes of its lines. -/
theorem decoded_lines (input : String) :
    ((pieces 10 input.toUTF8.toList).map fun line =>
        (String.fromUTF8? ⟨line.toArray⟩).map String.toList) =
      (pieces '\n' input.toList).map some := by
  rw [String.toUTF8_eq_toByteArray, ← String.utf8Encode_toList, toList_utf8Encode, pieces_utf8,
    List.map_map]
  refine List.map_congr_left fun line _ => ?_
  show (String.fromUTF8? ⟨(line.flatMap String.utf8EncodeChar).toArray⟩).map String.toList = _
  rw [fromUTF8?_encoded, Option.map_some, String.toList_ofList]

end Session
end PixelCalc
