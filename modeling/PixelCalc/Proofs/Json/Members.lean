import PixelCalc.Proofs.Json.Fields

/-!
# Fields as they stand in a text

The fields of an object that is read are in order, whatever their order in the text, and no name comes
twice. In the text they stand one behind the other, each with a document of its own; a name may come
several times, and the last one counts.

- `readValue?_split`: a value in a document is read as it is read alone.
- `Members`, `IsObject`: the fields of an object as they stand in its lexemes.
- `Entries`: the fields of an object as they stand in its text.
- `read?_eq_object_iff`: a text is read as an object if it is one, and the fields are the table of
  those in the text.
-/

namespace PixelCalc
namespace Json

variable {j k : Json} {ls rest value : List Lexeme} {stack outer : List Frame} {n name source : String}
  {fields entries : List (String × Json)}

/-! ### Values within a document -/

mutual

/-- Where a value begins in a document, a value that is read alone is followed by the rest. -/
theorem readValue?_split {stack : List Frame} {ls : List Lexeme}
    (h : readValue? (stack ++ outer) ls = some j) :
    ∃ value rest k, ls = value ++ rest ∧ readValue? stack value = some k ∧
      readAfter? outer k rest = some j := by
  -- A value that is complete at once leaves the rest to the frames around it. One that opens a
  -- frame is split by the same statement with that frame on the stack.
  unfold readValue? at h
  split at h
  · obtain ⟨value, rest, k, rfl, hvalue, hrest⟩ := readAfter?_split h
    exact ⟨_ :: value, rest, k, rfl, by rwa [readValue?], hrest⟩
  · obtain ⟨value, rest, k, rfl, hvalue, hrest⟩ := readAfter?_split h
    exact ⟨_ :: _ :: value, rest, k, rfl, by rwa [readValue?], hrest⟩
  · rename_i hclose
    rw [← List.cons_append] at h
    obtain ⟨value, rest, k, rfl, hvalue, hrest⟩ := readValue?_split h
    refine ⟨.openArray :: value, rest, k, rfl, ?_, hrest⟩
    rw [readValue?_openArray stack]
    · exact hvalue
    · rintro rest' rfl
      exact hclose _ rfl
  · obtain ⟨value, rest, k, rfl, hvalue, hrest⟩ := readAfter?_split h
    exact ⟨_ :: _ :: value, rest, k, rfl, by rwa [readValue?], hrest⟩
  · rw [← List.cons_append] at h
    obtain ⟨value, rest, k, rfl, hvalue, hrest⟩ := readValue?_split h
    exact ⟨_ :: _ :: _ :: value, rest, k, rfl, by rwa [readValue?], hrest⟩
  · cases h
termination_by ls.length
decreasing_by all_goals subst_vars; simp only [List.length_cons]; omega

/-- Where a value has ended in a document, the arrays and objects opened last are closed first. -/
theorem readAfter?_split {stack : List Frame} {k : Json} {ls : List Lexeme}
    (h : readAfter? (stack ++ outer) k ls = some j) :
    ∃ value rest k', ls = value ++ rest ∧ readAfter? stack k value = some k' ∧
      readAfter? outer k' rest = some j := by
  cases stack with
  | nil => exact ⟨[], ls, k, rfl, by rw [readAfter?]; rfl, h⟩
  | cons frame stack =>
    rw [List.cons_append] at h
    unfold readAfter? at h
    -- a comma goes on with the same frame, a closing bracket closes it and goes on with the frame
    -- around
    split at h
    · cases h
    · split at h
      · rename_i heq
        obtain ⟨rfl, rfl⟩ := List.cons.inj heq
        rw [← List.cons_append] at h
        obtain ⟨value, rest, k', rfl, hvalue, hrest⟩ := readValue?_split h
        exact ⟨_ :: value, rest, k', rfl, by rwa [readAfter?], hrest⟩
      · rename_i heq
        obtain ⟨rfl, rfl⟩ := List.cons.inj heq
        rw [← List.cons_append] at h
        obtain ⟨value, rest, k', rfl, hvalue, hrest⟩ := readValue?_split h
        exact ⟨_ :: _ :: _ :: value, rest, k', rfl, by rwa [readAfter?], hrest⟩
      · cases h
    · split at h
      · rename_i heq
        obtain ⟨rfl, rfl⟩ := List.cons.inj heq
        obtain ⟨value, rest, k', rfl, hvalue, hrest⟩ := readAfter?_split h
        exact ⟨_ :: value, rest, k', rfl, by rwa [readAfter?], hrest⟩
      · cases h
    · split at h
      · rename_i heq
        obtain ⟨rfl, rfl⟩ := List.cons.inj heq
        obtain ⟨value, rest, k', rfl, hvalue, hrest⟩ := readAfter?_split h
        exact ⟨_ :: value, rest, k', rfl, by rwa [readAfter?], hrest⟩
      · cases h
    · cases h
termination_by ls.length
decreasing_by all_goals subst_vars; simp only [List.length_cons]; omega

end

/-- Behind a whole document nothing follows. -/
theorem readAfter?_nil_inv (h : readAfter? [] k ls = some j) : ls = [] ∧ j = k := by
  unfold readAfter? at h
  split at h
  · cases h
    exact ⟨rfl, rfl⟩
  · split at h
    · rename_i heq
      cases heq
    · rename_i heq
      cases heq
    · cases h
  all_goals cases h

/-- Behind a value in an array the array ends, or another value follows. -/
theorem readAfter?_array_inv {items : List Json} (h : readAfter? [.array items] k ls = some j) :
    (∃ items', j = .array items') ∨
      ∃ rest, ls = .comma :: rest ∧ readValue? [.array (k :: items)] rest = some j := by
  unfold readAfter? at h
  split at h
  · cases h
  · split at h
    · rename_i heq
      cases heq
      exact .inr ⟨_, rfl, h⟩
    · rename_i heq
      cases heq
    · rename_i hne _
      exact absurd rfl (hne _ _)
  · split at h
    · rename_i heq
      cases heq
      exact .inl ⟨_, (readAfter?_nil_inv h).2⟩
    · rename_i hne
      exact absurd rfl (hne _ _)
  · split at h
    · rename_i heq
      cases heq
    · cases h
  · cases h

/-- Behind a value in an object the object ends, or another field follows. -/
theorem readAfter?_object_inv (h : readAfter? [.object fields n] k ls = some j) :
    ls = [.closeObject] ∧ j = .object (Table.insert fields n k) ∨
      ∃ next rest, ls = .comma :: .scalar (.text next) :: .colon :: rest ∧
        readValue? [.object (Table.insert fields n k) next] rest = some j := by
  unfold readAfter? at h
  split at h
  · cases h
  · split at h
    · rename_i heq
      cases heq
    · rename_i heq
      cases heq
      exact .inr ⟨_, _, rfl, h⟩
    · cases h
  · split at h
    · rename_i heq
      cases heq
    · cases h
  · split at h
    · rename_i heq
      cases heq
      obtain ⟨rfl, rfl⟩ := readAfter?_nil_inv h
      exact .inl ⟨rfl, rfl⟩
    · rename_i hne
      exact absurd rfl (hne _ _ _)
  · cases h

/-- What begins with the bracket of an array is an array. -/
theorem exists_array_of_readValue? {items : List Json} {ls : List Lexeme}
    (h : readValue? [.array items] ls = some j) : ∃ items', j = .array items' := by
  rw [← List.nil_append [Frame.array items]] at h
  obtain ⟨value, rest, k, rfl, -, h⟩ := readValue?_split h
  rcases readAfter?_array_inv h with harray | ⟨rest, rfl, h⟩
  · exact harray
  · exact exists_array_of_readValue? h
termination_by ls.length
decreasing_by subst_vars; simp only [List.length_cons, List.length_append]; omega

/-! ### The fields of an object in its lexemes -/

/-- The lexemes are fields with commas between them. A field is a name, a colon and a document of its
own. -/
inductive Members : List Lexeme → List (String × Json) → Prop
  | last (n : String) {value : List Lexeme} {j : Json} (h : readValue? [] value = some j) :
      Members (.scalar (.text n) :: .colon :: value) [(n, j)]
  | cons (n : String) {value rest : List Lexeme} {j : Json} {entries : List (String × Json)}
      (h : readValue? [] value = some j) (hrest : Members rest entries) :
      Members (.scalar (.text n) :: .colon :: (value ++ .comma :: rest)) ((n, j) :: entries)

/-- The lexemes are an object with these fields. -/
inductive IsObject : List Lexeme → List (String × Json) → Prop
  | empty : IsObject [.openObject, .closeObject] []
  | members {ls : List Lexeme} {entries : List (String × Json)} (h : Members ls entries) :
      IsObject (.openObject :: (ls ++ [.closeObject])) entries

/-- The fields of an open object with more of them entered in order. -/
def enter (fields entries : List (String × Json)) : List (String × Json) :=
  entries.foldl (fun t pair => Table.insert t pair.1 pair.2) fields

/-- The fields of an object are entered one after the other. -/
theorem Members.readValue? (h : Members ls entries) :
    ∃ n rest, ls = .scalar (.text n) :: .colon :: rest ∧ ∀ fields,
      Json.readValue? [.object fields n] (rest ++ [.closeObject]) =
        some (.object (enter fields entries)) := by
  -- Induction on the members; the fields entered so far are general, since each member adds to
  -- them.
  induction h with
  | last n h =>
    refine ⟨n, _, rfl, fun fields => ?_⟩
    rw [← List.nil_append [Frame.object fields n], readValue?_within h, readAfter?, readAfter?]
    rfl
  | cons n h _ ih =>
    obtain ⟨next, rest, rfl, ih⟩ := ih
    refine ⟨n, _, rfl, fun fields => ?_⟩
    rw [← List.nil_append [Frame.object fields n], List.append_assoc, readValue?_within h]
    show readAfter? [.object fields n] _ (.comma :: .scalar (.text next) :: .colon ::
      (rest ++ [.closeObject])) = _
    rw [readAfter?, ih]
    rfl

/-- An object that has been opened goes on with fields up to its end. -/
theorem members_of_readValue? {fields : List (String × Json)} {n : String} {ls : List Lexeme}
    (h : readValue? [.object fields n] ls = some j) :
    ∃ rest entries, ls = rest ++ [.closeObject] ∧
      Members (.scalar (.text n) :: .colon :: rest) entries ∧ j = .object (enter fields entries) := by
  rw [← List.nil_append [Frame.object fields n]] at h
  obtain ⟨value, rest, k, rfl, hvalue, h⟩ := readValue?_split h
  rcases readAfter?_object_inv h with ⟨rfl, rfl⟩ | ⟨next, rest, rfl, h⟩
  · exact ⟨value, _, rfl, .last n hvalue, rfl⟩
  · obtain ⟨rest, entries, rfl, hmembers, rfl⟩ := members_of_readValue? h
    refine ⟨value ++ .comma :: .scalar (.text next) :: .colon :: rest, _, ?_, .cons n hvalue hmembers,
      rfl⟩
    simp only [List.append_assoc, List.cons_append]
termination_by ls.length
decreasing_by subst_vars; simp only [List.length_cons, List.length_append]; omega

/-- Lexemes are read as an object if they are one. -/
theorem readValue?_eq_object_iff (hscalars : ∀ k, Lexeme.scalar k ∈ ls → k.IsScalar) :
    readValue? [] ls = some (.object fields) ↔
      ∃ entries, IsObject ls entries ∧ fields = Table.ofList entries := by
  constructor
  · intro h
    unfold readValue? at h
    split at h
    · -- an object is not one lexeme
      obtain ⟨rfl, rfl⟩ := readAfter?_nil_inv h
      exact (hscalars _ List.mem_cons_self).elim
    · cases (readAfter?_nil_inv h).2
    · obtain ⟨items, heq⟩ := exists_array_of_readValue? h
      cases heq
    · obtain ⟨rfl, heq⟩ := readAfter?_nil_inv h
      cases heq
      exact ⟨[], .empty, rfl⟩
    · obtain ⟨rest, entries, rfl, hmembers, heq⟩ := members_of_readValue? h
      cases heq
      exact ⟨entries, .members hmembers, rfl⟩
    · cases h
  · rintro ⟨entries, h, rfl⟩
    cases h with
    | empty =>
      rw [readValue?, readAfter?]
      rfl
    | members h =>
      obtain ⟨n, rest, rfl, hread⟩ := h.readValue?
      rw [List.cons_append, List.cons_append, readValue?]
      exact hread []

/-! ### The fields of an object in its text -/

/-- The text is an object, and these are its fields in the order in which they stand there. -/
def Entries (source : String) (entries : List (String × Json)) : Prop :=
  ∃ ls, lexemes? source.toList = some ls ∧ IsObject ls entries ∧ depth ls ≤ maxDepth

/-- A text is read as an object if it is one. The fields are the table of those in the text. -/
theorem read?_eq_object_iff :
    read? source = some (.object fields) ↔
      ∃ entries, Entries source entries ∧ fields = Table.ofList entries := by
  constructor
  · intro h
    obtain ⟨ls, hls, h⟩ := Option.bind_eq_some_iff.mp h
    unfold document? at h
    split at h
    · rename_i hdepth
      obtain ⟨entries, hobject, rfl⟩ :=
        (readValue?_eq_object_iff (isScalar_of_lexemes? hls)).mp h
      exact ⟨entries, ⟨ls, hls, hobject, hdepth⟩, rfl⟩
    · cases h
  · rintro ⟨entries, ⟨ls, hls, hobject, hdepth⟩, rfl⟩
    rw [read?, hls, Option.bind_some, document?, if_pos hdepth]
    exact (readValue?_eq_object_iff (isScalar_of_lexemes? hls)).mpr ⟨entries, hobject, rfl⟩

end Json
end PixelCalc
