import PixelCalc.Exchange.Binding
import PixelCalc.Proofs.Json.Fields

/-!
# Bindings and inputs

A variable is bound by `NAME=VALUE` or by a field of a JSON object. Both read the value as the same
document, so they agree, with two exceptions. A binding is one line: a line end between the first and
the last character of its value makes it no binding, while JSON allows it. And a document that is
nested as deep as documents may be is no value of a field.

- `isName_iff`: names are texts of letters.
- `isBlank_of_isAlphabetic`, `isQuotable_of_isAlphabetic`: letters are neither blank nor escaped.
- `split?_spell`, `parse_spell`: a binding is taken apart where it was put together.
- `quote_of_isName`, `read?_field`: an object of one field that has the name of a variable.
- `parse_and_bindInput`: what a binding and an input with the same name and value do.
-/

namespace PixelCalc

/-! ### Names -/

/-- A name, as characters: not empty, and letters only. -/
theorem isName_iff {n : String} :
    isName n = true ↔ n.toList ≠ [] ∧ ∀ c ∈ n.toList, Text.isAlphabetic c = true := by
  have hempty : (!n.isEmpty) = true ↔ n.toList ≠ [] := by simp
  rw [isName, Bool.and_eq_true, hempty, List.all_eq_true]

/-- The part of `isName_iff` that the scans of a name go by. -/
theorem letters_of_isName {n : String} (hn : isName n = true) :
    ∀ c ∈ n.toList, Text.isAlphabetic c = true :=
  (isName_iff.mp hn).2

namespace Text

/-- Code points outside of the alphabet: the blank and the control characters, the quote and the
backslash. -/
theorem inRanges_of_special : ∀ n ∈ List.range 0x21 ++ [0x22, 0x5C, 0x85, 0xA0, 0x1680, 0x2000, 0x2001,
    0x2002, 0x2003, 0x2004, 0x2005, 0x2006, 0x2007, 0x2008, 0x2009, 0x200A, 0x2028, 0x2029, 0x202F,
    0x205F, 0x3000], inRanges n alphabeticRanges = false := by
  decide +kernel

variable {c : Char}

/-- No letter is a blank, so trimming stops at a name. -/
theorem isBlank_of_isAlphabetic (h : isAlphabetic c = true) : isBlank c = false := by
  refine Bool.eq_false_iff.mpr fun hc => ?_
  have hspecial := inRanges_of_special c.toNat (by
    simp only [isBlank, Bool.or_eq_true, Bool.and_eq_true, decide_eq_true_eq, beq_iff_eq] at hc
    simp only [List.mem_append, List.mem_range, List.mem_cons, List.not_mem_nil, or_false]
    omega)
  exact Bool.false_ne_true (hspecial.symm.trans h)

/-- The character stands for itself between quotes. -/
def IsQuotable (c : Char) : Prop :=
  c ≠ '"' ∧ c ≠ '\\' ∧ 0x20 ≤ c.toNat

/-- No letter needs an escape: letters come after the control characters, and are neither the
quotation mark nor the backslash. -/
theorem isQuotable_of_isAlphabetic (h : isAlphabetic c = true) : IsQuotable c := by
  have hspecial (hc : c.toNat < 0x21 ∨ c.toNat = 0x22 ∨ c.toNat = 0x5C) : False := by
    have hfalse := inRanges_of_special c.toNat (by
      simp only [List.mem_append, List.mem_range, List.mem_cons, List.not_mem_nil, or_false]
      omega)
    exact Bool.false_ne_true (hfalse.symm.trans h)
  refine ⟨?_, ?_, ?_⟩
  · rintro rfl
    exact hspecial (.inr (.inl rfl))
  · rintro rfl
    exact hspecial (.inr (.inr rfl))
  · exact Nat.le_of_not_lt fun hc => hspecial (.inl (by omega))

end Text

/-! ### An object of one field -/

namespace Json

variable {j : Json}

/-- A character that needs no escape is written as itself. -/
theorem escapeChar_of_isQuotable {c : Char} (h : Text.IsQuotable c) : escapeChar c = [c] := by
  obtain ⟨hquote, hbackslash, hcontrol⟩ := h
  unfold escapeChar
  split
  · exact absurd rfl hquote
  · exact absurd rfl hbackslash
  iterate 5 exact absurd hcontrol (by decide)
  rw [if_neg (Nat.not_lt_of_le hcontrol)]

/-- No letter of a name is escaped. -/
theorem quote_of_isName {n : String} (hn : isName n = true) : quote n = "\"" ++ n ++ "\"" := by
  have hescape {cs : List Char} (hcs : ∀ c ∈ cs, Text.isAlphabetic c = true) :
      cs.flatMap escapeChar = cs := by
    induction cs with
    | nil => rfl
    | cons c cs ih =>
      obtain ⟨hc, hcs⟩ := List.forall_mem_cons.mp hcs
      rw [List.flatMap_cons, escapeChar_of_isQuotable (Text.isQuotable_of_isAlphabetic hc), ih hcs,
        List.singleton_append]
  refine String.toList_injective ?_
  simp [quote, hescape (letters_of_isName hn)]

/-- An object of one field that has the name of a variable. -/
theorem read?_field {n t : String} (hn : isName n = true) (h : read? t = some j) :
    read? ("\x7b\"" ++ n ++ "\": " ++ t ++ "\x7d") =
      if maxDepth ≤ nesting t then none else some (.object [(n, j)]) := by
  have htext : "\x7b\"" ++ n ++ "\": " ++ t ++ "\x7d" = fieldText n t := by
    rw [fieldText, quote_of_isName hn]
    refine String.toList_injective ?_
    simp [openObject, closeObject]
  rw [htext, read?_fieldText n h]

end Json

/-! ### The parts of a binding -/

namespace Binding

/-- Trimming takes nothing from a text that starts with something else than a blank. -/
theorem trimStart_of_not_blank {c : Char} (h : Text.isBlank c = false) (cs : List Char) :
    Text.trimStart (c :: cs) = c :: cs := by
  rw [Text.trimStart, List.dropWhile_cons, if_neg (by simp [h])]

/-- A name and a value are found on their sides of the `=`. -/
theorem split?_spell {name : List Char} (hname : ∀ c ∈ name, Text.isAlphabetic c = true)
    (hne : name ≠ []) (rest : List Char) : split? (name ++ '=' :: rest) = some (name, rest) := by
  obtain ⟨c, cs, rfl⟩ := List.exists_cons_of_ne_nil hne
  have hstart : Text.trimStart (c :: cs ++ '=' :: rest) = c :: cs ++ '=' :: rest :=
    trimStart_of_not_blank (Text.isBlank_of_isAlphabetic (hname c List.mem_cons_self)) _
  have htake : (c :: cs ++ '=' :: rest).takeWhile Text.isAlphabetic = c :: cs := by
    rw [List.takeWhile_append_of_pos hname, List.takeWhile_cons, if_neg (by decide), List.append_nil]
  have hdrop : (c :: cs ++ '=' :: rest).dropWhile Text.isAlphabetic = '=' :: rest := by
    rw [List.dropWhile_append_of_pos hname, List.dropWhile_cons, if_neg (by decide)]
  unfold split?
  simp only [hstart, htake, hdrop, trimStart_of_not_blank (c := '=') rfl]

/-- The value of a binding is all that stands behind the `=`, if that is one line. -/
theorem document?_of_read? {cs : List Char} {j : Json} (h : Json.read? (String.ofList cs) = some j) :
    document? cs = if '\n' ∈ Text.trim cs then none else some (Text.trim cs) := by
  have hfull : cs.all (fun c => c = '\n') = false := by
    refine Bool.eq_false_iff.mpr fun hall => ?_
    obtain ⟨ls, hls, hread⟩ := Option.bind_eq_some_iff.mp h
    rw [String.toList_ofList] at hls
    have hblank : ∀ c ∈ cs, Text.isBlank c = true := by
      intro c hc
      have hline := List.all_eq_true.mp hall c hc
      rw [of_decide_eq_true hline]
      rfl
    rw [Json.lexemes?_of_blank hblank hls] at hread
    exact absurd (hread.symm.trans Json.document?_nil) nofun
  simp only [document?, hfull, Bool.false_eq_true, or_false]

/-- A binding put together from a name and a document. -/
theorem parse_spell {n t : String} {j : Json} (hn : isName n = true) (h : Json.read? t = some j) :
    parse (n ++ "=" ++ t) =
      if '\n' ∈ Text.trim t.toList then .error (.badBinding (n ++ "=" ++ t))
      else j.toValue.map fun v => (n, v) := by
  have hread : Json.read? (String.ofList t.toList) = some j := by rwa [String.ofList_toList]
  have hsplit : split? (n ++ "=" ++ t).toList = some (n.toList, t.toList) := by
    have htext : (n ++ "=" ++ t).toList = n.toList ++ '=' :: t.toList := by simp
    rw [htext, split?_spell (letters_of_isName hn) (isName_iff.mp hn).1]
  rw [parse, hsplit]
  dsimp only
  rw [document?_of_read? hread]
  -- a line feed left after trimming is the one thing that the pattern does not match
  by_cases hline : '\n' ∈ Text.trim t.toList
  · rw [if_pos hline, if_pos hline]
  · rw [if_neg hline, if_neg hline]
    dsimp only
    rw [Json.read?_trim hread, String.ofList_toList]
    show (j.toValue >>= fun v => pure (n, v)) = _
    cases j.toValue <;> rfl

end Binding

/-! ### Both ways to bind a variable -/

/-- A binding and an object of one field with the same name and the same document bind the same
variable to the same value, or fail for the same reason. The exceptions: a binding whose document
goes over several lines is refused, and so is an object with a document of the greatest depth. -/
theorem parse_and_bindInput {n t : String} {j : Json} (hn : isName n = true)
    (h : Json.read? t = some j) (env : Environment) :
    Binding.parse (n ++ "=" ++ t) =
      (if '\n' ∈ Text.trim t.toList then .error (.badBinding (n ++ "=" ++ t))
      else j.toValue.map fun v => (n, v)) ∧
    env.bindInput ("\x7b\"" ++ n ++ "\": " ++ t ++ "\x7d") =
      if Json.maxDepth ≤ Json.nesting t then (env, some .notJson)
      else match j.toValue with
        | .ok v => (env.bind n v, none)
        | .error e => (env, some e) := by
  refine ⟨Binding.parse_spell hn h, ?_⟩
  rw [Environment.bindInput, Json.read?_field hn h]
  -- the object around the value is one level deeper than the value, so a value of the greatest
  -- depth is refused here
  by_cases hdepth : Json.maxDepth ≤ Json.nesting t
  · rw [if_pos hdepth, if_pos hdepth]
  · rw [if_neg hdepth, if_neg hdepth]
    cases hvalue : j.toValue with
    | ok v => simp only [Environment.bindFields, if_pos hn, hvalue]
    | error e => simp only [Environment.bindFields, if_pos hn, hvalue]

/-- A number with blank characters around it is the same value both ways. -/
theorem parse_and_bindInput_number :
    Binding.parse "x= 7\n" = .ok ("x", .number (Binary64.ofInteger 7)) ∧
      Environment.empty.bindInput "\x7b\"x\":  7\n\x7d" =
        (Environment.empty.bind "x" (.number (Binary64.ofInteger 7)), none) := by
  have hlexemes : Json.lexemes? " 7\n".toList = some [.scalar (.integer 7)] := by
    show Json.lexemes? [' ', '7', '\n'] = _
    rw [Json.lexemes?_space rfl, Json.lexemes?_lexeme rfl rfl, Json.lexemes?_space rfl,
      Json.lexemes?]
    rfl
  have hread : Json.read? " 7\n" = some (.integer 7) := by
    rw [Json.read?, hlexemes]
    rfl
  have hnesting : Json.nesting " 7\n" = 0 := by
    rw [Json.nesting, hlexemes]
    rfl
  have hline : ¬ '\n' ∈ Text.trim " 7\n".toList := by decide
  obtain ⟨hparse, hinput⟩ := parse_and_bindInput (n := "x") (by decide) hread Environment.empty
  rw [if_neg hline] at hparse
  rw [hnesting, if_neg (by decide)] at hinput
  exact ⟨hparse, hinput⟩

/-- A matrix whose rows stand in lines of their own is the value of a field, but not of a binding. -/
theorem rows_in_lines :
    Json.read? "[[1],\n[2]]" = some (.array [.array [.integer 1], .array [.integer 2]]) ∧
      Binding.parse "x=[[1],\n[2]]" = .error (.badBinding "x=[[1],\n[2]]") ∧
      Environment.empty.bindInput "\x7b\"x\": [[1],\n[2]]\x7d" =
        (Environment.empty.bind "x"
          (.matrix ⟨.plain, 2, 1, 1, #[Binary64.ofInteger 1, Binary64.ofInteger 2]⟩), none) := by
  have hname : isName "x" = true := by decide
  have hlexemes : Json.lexemes? "[[1],\n[2]]".toList =
      some [.openArray, .openArray, .scalar (.integer 1), .closeArray, .comma,
        .openArray, .scalar (.integer 2), .closeArray, .closeArray] := by
    show Json.lexemes? ['[', '[', '1', ']', ',', '\n', '[', '2', ']', ']'] = _
    iterate 5 rw [Json.lexemes?_lexeme rfl rfl]
    rw [Json.lexemes?_space rfl]
    iterate 4 rw [Json.lexemes?_lexeme rfl rfl]
    rw [Json.lexemes?]
    rfl
  have hread : Json.read? "[[1],\n[2]]" =
      some (.array [.array [.integer 1], .array [.integer 2]]) := by
    rw [Json.read?, hlexemes]
    rfl
  have hnesting : Json.nesting "[[1],\n[2]]" = 2 := by
    rw [Json.nesting, hlexemes]
    rfl
  refine ⟨hread, ?_, ?_⟩
  -- as a binding: the line feed stands within the value, so trimming leaves it
  · exact (Binding.parse_spell hname hread).trans (if_pos (by decide))
  -- as the field of an object: a line feed is a space like any other
  · have hfield : Json.read? "\x7b\"x\": [[1],\n[2]]\x7d" = _ :=
      (Json.read?_field hname hread).trans (if_neg (by rw [hnesting]; decide))
    rw [Environment.bindInput, hfield]
    rfl

end PixelCalc
