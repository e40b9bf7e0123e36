import PixelCalc.Proofs.Json.Behind

/-!
# Fields of objects

Every text may be the name of a field: it is read back from between quotes. The fields of an object
that is read ascend by name, so no name comes twice.

- `readString?_quoted`, `lexeme?_quoted`: a text in quotes.
- `nesting`, `fieldText`, `read?_fieldText`: an object of one field.
- `IsScalar`, `isScalar_of_lexemes?`: what stands in one lexeme is neither an array nor an object.
- `InOrder`, `Frame.InOrder`: documents, and arrays and objects still open, whose fields ascend;
  `inOrder_of_readValue?` says that reading on keeps them so.
- `ordered_of_read?`: the fields of an object that a text is.
-/

namespace PixelCalc
namespace Json

variable {c : Char} {cs rest whole places : List Char} {j : Json} {ls : List Lexeme}
  {t source : String} {negative : Bool} {e : Int} {fields : List (String × Json)}

/-! ### Names -/

/-- A hexadecimal digit stands for the number that it was written for. -/
theorem hexValue?_hexDigit {d : Nat} (h : d < 16) : hexValue? (hexDigit d) = some d := by
  have hall : ∀ d < 16, hexValue? (hexDigit d) = some d := by decide
  exact hall d h

/-- A control character is read back from its code. -/
theorem readUnicode?_code (h : c.toNat < 0x20) (rest : List Char) :
    readUnicode? ('0' :: '0' :: hexDigit (c.toNat / 16) :: hexDigit (c.toNat % 16) :: rest) =
      some (c, rest) := by
  have hcode : readCode? ('0' :: '0' :: hexDigit (c.toNat / 16) :: hexDigit (c.toNat % 16) :: rest) =
      some (c.toNat, rest) := by
    have hvalue : 4096 * 0 + 256 * 0 + 16 * (c.toNat / 16) + c.toNat % 16 = c.toNat := by omega
    rw [readCode?, hexValue?_hexDigit (by omega), hexValue?_hexDigit (by omega)]
    show some (4096 * 0 + 256 * 0 + 16 * (c.toNat / 16) + c.toNat % 16, rest) = _
    rw [hvalue]
  -- control characters lie below both halves of a surrogate pair
  have hhigh : ¬ isHighSurrogate c.toNat = true := by
    simp only [isHighSurrogate, Bool.and_eq_true, decide_eq_true_eq]
    omega
  have hlow : ¬ isLowSurrogate c.toNat = true := by
    simp only [isLowSurrogate, Bool.and_eq_true, decide_eq_true_eq]
    omega
  unfold readUnicode?
  rw [hcode]
  dsimp only
  rw [if_neg hhigh, if_neg hlow, Char.ofNat_toNat]

/-- A character between quotes is read back, and it does not look like the closing quote. -/
theorem readChar?_escapeChar (c : Char) (rest : List Char) :
    readChar? (escapeChar c ++ rest) = some (c, rest) ∧ (escapeChar c ++ rest).head? ≠ some '"' := by
  unfold escapeChar
  split
  iterate 7 exact ⟨rfl, nofun⟩
  · -- all other characters stand for themselves, or are written by their codes
    rename_i hquote hbackslash _ _ _ _ _
    split
    · rename_i hcontrol
      exact ⟨readUnicode?_code hcontrol rest, nofun⟩
    · rename_i hcontrol
      refine ⟨?_, fun h => hquote (Option.some.inj h)⟩
      rw [List.singleton_append, readChar?_of_ne hbackslash, if_neg hcontrol]

/-- A text in quotes is read back. -/
theorem readString?_quoted (name rest : List Char) :
    readString? (name.flatMap escapeChar ++ '"' :: rest) = some (name, rest) := by
  induction name with
  | nil =>
    rw [List.flatMap_nil, List.nil_append, readString?]
    rfl
  | cons c name ih =>
    obtain ⟨hread, hhead⟩ := readChar?_escapeChar c (name.flatMap escapeChar ++ '"' :: rest)
    rw [List.flatMap_cons, List.append_assoc, readString?_of_ne hhead, hread, Option.bind_some, ih]
    rfl

/-- A text in quotes is one lexeme. -/
theorem lexeme?_quoted (name rest : List Char) :
    lexeme? '"' (name.flatMap escapeChar ++ '"' :: rest) =
      some (.scalar (.text (String.ofList name)), rest) := by
  show ((readString? _).map _).map _ = _
  rw [readString?_quoted]
  rfl

/-! ### An object of one field -/

/-- How many arrays and objects are open at once in a text, at most. -/
def nesting (source : String) : Nat :=
  ((lexemes? source.toList).map depth).getD 0

/-- The text of an object of one field, with a document as its value. -/
def fieldText (n t : String) : String :=
  openObject ++ quote n ++ ": " ++ t ++ closeObject

/-- The lexemes of an object of one field are those of its value with five others around them. -/
theorem lexemes?_field (name : List Char) (h : lexemes? cs = some ls) :
    lexemes? ('\x7b' :: '"' :: name.flatMap escapeChar ++ '"' :: ':' :: ' ' :: cs ++ ['\x7d']) =
      some (.openObject :: .scalar (.text (String.ofList name)) :: .colon ::
        (ls ++ [Lexeme.closeObject])) := by
  have hclosing : Closing ['\x7d'] := by
    intro c hc
    cases List.mem_singleton.mp hc
    decide
  have hvalue : lexemes? (' ' :: (cs ++ ['\x7d'])) = some (ls ++ [Lexeme.closeObject]) := by
    rw [lexemes?_space rfl, lexemes?_append hclosing, h, lexemes?_lexeme rfl rfl, lexemes?]
    rfl
  simp only [List.cons_append, List.append_assoc]
  rw [lexemes?_lexeme rfl rfl, lexemes?_lexeme rfl (lexeme?_quoted name _), lexemes?_lexeme rfl rfl,
    hvalue]
  rfl

/-- An object of one field is read whatever the name of the field is. -/
theorem read?_fieldText (n : String) (h : read? t = some j) :
    read? (fieldText n t) = if maxDepth ≤ nesting t then none else some (.object [(n, j)]) := by
  obtain ⟨ls, hls, hread⟩ := Option.bind_eq_some_iff.mp h
  have htext : (fieldText n t).toList =
      '\x7b' :: '"' :: n.toList.flatMap escapeChar ++ '"' :: ':' :: ' ' :: t.toList ++ ['\x7d'] := by
    simp [fieldText, openObject, closeObject, quote]
  have hnesting : nesting t = depth ls := by
    rw [nesting, hls]
    rfl
  rw [read?, htext, lexemes?_field n.toList hls, Option.bind_some, document?_field hread, hnesting,
    String.ofList_toList]

/-! ### Scalars -/

/-- The document is neither an array nor an object. -/
def IsScalar : Json → Prop
  | array _ => False
  | object _ => False
  | _ => True

theorem isScalar_of_realOf? (h : realOf? negative whole places e = some j) : j.IsScalar := by
  obtain ⟨x, -, rfl⟩ := Option.map_eq_some_iff.mp h
  trivial

/-- An integer is a scalar, also where it is too large and is read as a decimal. -/
theorem isScalar_of_integerOf? (h : integerOf? negative whole = some j) : j.IsScalar := by
  unfold integerOf? at h
  dsimp only at h
  split at h
  · split at h
    · cases h
      trivial
    · exact isScalar_of_realOf? h
  · split at h
    · cases h
      trivial
    · exact isScalar_of_realOf? h

/-- With an exponent or without one, what is read is a decimal. -/
theorem isScalar_of_readExponent? (h : readExponent? negative whole places cs = some (j, rest)) :
    j.IsScalar := by
  have hreal {e : Int} {r : List Char}
      (h : (realOf? negative whole places e).map (fun j => (j, r)) = some (j, rest)) :
      j.IsScalar := by
    obtain ⟨k, hk, heq⟩ := Option.map_eq_some_iff.mp h
    cases heq
    exact isScalar_of_realOf? hk
  unfold readExponent? at h
  split at h
  · split at h
    · cases h
    · exact hreal h
  · split at h
    · cases h
    · exact hreal h
  · exact hreal h

/-- With a fraction or an exponent the number is a decimal, without either it is an integer where it
fits. -/
theorem isScalar_of_readFraction? (h : readFraction? negative whole cs = some (j, rest)) :
    j.IsScalar := by
  unfold readFraction? at h
  split at h
  · split at h
    · cases h
    · exact isScalar_of_readExponent? h
  · exact isScalar_of_readExponent? h
  · exact isScalar_of_readExponent? h
  · obtain ⟨k, hk, heq⟩ := Option.map_eq_some_iff.mp h
    cases heq
    exact isScalar_of_integerOf? hk

/-- The digits of a number, with a fraction or an exponent after them or not. -/
theorem isScalar_of_readUnsigned? (h : readUnsigned? negative cs = some (j, rest)) : j.IsScalar := by
  unfold readUnsigned? at h
  split at h
  · cases h
  · split at h
    · cases h
    · exact isScalar_of_readFraction? h

/-- A number is a scalar whatever its sign. -/
theorem isScalar_of_readNumber? (h : readNumber? cs = some (j, rest)) : j.IsScalar := by
  unfold readNumber? at h
  split at h
  · exact isScalar_of_readUnsigned? h
  · exact isScalar_of_readUnsigned? h

theorem isScalar_of_readWord? (h : readWord? cs = some (j, rest)) : j.IsScalar := by
  unfold readWord? at h
  split at h <;> cases h <;> trivial

/-- What stands in one lexeme is a scalar. -/
theorem isScalar_of_lexeme? (h : lexeme? c cs = some (.scalar j, rest)) : j.IsScalar := by
  unfold lexeme? at h
  split at h
  · rename_i l hsign
    cases h
    unfold sign? at hsign
    split at hsign <;> cases hsign
  · obtain ⟨⟨k, r⟩, hk, heq⟩ := Option.map_eq_some_iff.mp h
    cases heq
    unfold readScalar? at hk
    split at hk
    · obtain ⟨s, -, heq⟩ := Option.map_eq_some_iff.mp hk
      cases heq
      trivial
    · split at hk
      · exact isScalar_of_readNumber? hk
      · exact isScalar_of_readWord? hk

/-- The documents that lexemes carry are scalars, for arrays and objects are made by the reader
only. -/
theorem isScalar_of_lexemes? {cs : List Char} {ls : List Lexeme} (h : lexemes? cs = some ls) :
    ∀ k : Json, Lexeme.scalar k ∈ ls → k.IsScalar := by
  -- along the recursion of the scan, which shortens the text by a space or by a lexeme
  match cs with
  | [] =>
    rw [lexemes?] at h
    cases h
    exact fun k hk => absurd hk List.not_mem_nil
  | c :: cs =>
    cases hspace : isSpace c with
    | true =>
      rw [lexemes?_space hspace] at h
      exact isScalar_of_lexemes? h
    | false =>
      rw [lexemes?_of_not_space hspace] at h
      obtain ⟨⟨l, rest⟩, hlexeme, h⟩ := Option.bind_eq_some_iff.mp h
      obtain ⟨more, hmore, rfl⟩ := Option.map_eq_some_iff.mp h
      have hlength := lexeme?_length hlexeme
      intro k hk
      rcases List.mem_cons.mp hk with rfl | hk
      · exact isScalar_of_lexeme? hlexeme
      · exact isScalar_of_lexemes? hmore k hk
termination_by cs.length

/-! ### The order of fields -/

/-- The fields of the document ascend by name, if it is an object. -/
def InOrder : Json → Prop
  | object fields => Table.Ordered fields
  | _ => True

/-- The fields that have been read of an open object ascend by name. -/
def Frame.InOrder : Frame → Prop
  | .array _ => True
  | .object fields _ => Table.Ordered fields

/-- A scalar has no fields that could be out of order. -/
theorem IsScalar.inOrder (h : j.IsScalar) : j.InOrder := by
  cases j with
  | object fields => exact h.elim
  | _ => trivial

mutual

/-- Reading on where a value begins adds to each open object in the order of its names. -/
theorem inOrder_of_readValue? {stack : List Frame} {ls : List Lexeme}
    (h : readValue? stack ls = some j) (hls : ∀ k : Json, Lexeme.scalar k ∈ ls → k.InOrder)
    (hstack : ∀ frame ∈ stack, frame.InOrder) : j.InOrder := by
  -- A case for each way to start a value: a scalar, an empty array, an array, an empty object, an
  -- object. A frame is opened without fields, so it is in order.
  unfold readValue? at h
  split at h
  · exact inOrder_of_readAfter? h (fun k hk => hls k (.tail _ hk)) hstack (hls _ List.mem_cons_self)
  · exact inOrder_of_readAfter? h (fun k hk => hls k (.tail _ (.tail _ hk))) hstack trivial
  · exact inOrder_of_readValue? h (fun k hk => hls k (.tail _ hk))
      (List.forall_mem_cons.mpr ⟨trivial, hstack⟩)
  · exact inOrder_of_readAfter? h (fun k hk => hls k (.tail _ (.tail _ hk))) hstack List.Pairwise.nil
  · exact inOrder_of_readValue? h (fun k hk => hls k (.tail _ (.tail _ (.tail _ hk))))
      (List.forall_mem_cons.mpr ⟨List.Pairwise.nil, hstack⟩)
  · cases h
termination_by ls.length
decreasing_by all_goals subst_vars; simp only [List.length_cons]; omega

/-- Reading on where a value has ended adds it to the innermost open object by its name. -/
theorem inOrder_of_readAfter? {stack : List Frame} {k : Json} {ls : List Lexeme}
    (h : readAfter? stack k ls = some j) (hls : ∀ k : Json, Lexeme.scalar k ∈ ls → k.InOrder)
    (hstack : ∀ frame ∈ stack, frame.InOrder) (hk : k.InOrder) : j.InOrder := by
  unfold readAfter? at h
  split at h
  · split at h
    · cases h
      exact hk
    · cases h
  · split at h
    · obtain ⟨-, hstack⟩ := List.forall_mem_cons.mp hstack
      exact inOrder_of_readValue? h (fun k hk => hls k (.tail _ hk))
        (List.forall_mem_cons.mpr ⟨trivial, hstack⟩)
    · obtain ⟨hframe, hstack⟩ := List.forall_mem_cons.mp hstack
      exact inOrder_of_readValue? h (fun k hk => hls k (.tail _ (.tail _ (.tail _ hk))))
        (List.forall_mem_cons.mpr ⟨Table.ordered_insert _ _ hframe, hstack⟩)
    · cases h
  · split at h
    · obtain ⟨-, hstack⟩ := List.forall_mem_cons.mp hstack
      exact inOrder_of_readAfter? h (fun k hk => hls k (.tail _ hk)) hstack trivial
    · cases h
  · split at h
    · -- the object ends with the field whose value has ended
      obtain ⟨hframe, hstack⟩ := List.forall_mem_cons.mp hstack
      exact inOrder_of_readAfter? h (fun k hk => hls k (.tail _ hk)) hstack
        (Table.ordered_insert _ _ hframe)
    · cases h
  · cases h
termination_by ls.length
decreasing_by all_goals subst_vars; simp only [List.length_cons]; omega

end

/-- The fields of an object that is read ascend by name. -/
theorem ordered_of_read? (h : read? source = some (.object fields)) : Table.Ordered fields := by
  obtain ⟨ls, hls, h⟩ := Option.bind_eq_some_iff.mp h
  have hscalars := fun k hk => (isScalar_of_lexemes? hls k hk).inOrder
  unfold document? at h
  split at h
  · exact inOrder_of_readValue? h hscalars (fun _ hframe => absurd hframe List.not_mem_nil)
  · cases h

end Json
end PixelCalc
