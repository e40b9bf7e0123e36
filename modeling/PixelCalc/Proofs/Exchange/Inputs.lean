import PixelCalc.Proofs.Exchange.Names
import PixelCalc.Proofs.Json.Members

/-!
# What a failed input leaves behind

The fields of an input are bound one after the other, in ascending order of their names, up to the
first that is refused. That field is the one reported, and the variables bound by then stay.

- `exists_variables`: the fields in front of the first that is refused.
- `Environment.Binds`: an environment is another one with some fields bound, and nothing else changed.
- `Environment.bindInput_prefix`: which fields of an input are bound, and which one is reported.
-/

namespace PixelCalc

variable {n input : String} {e : Failure} {field : String × Json}
  {fields entries : List (String × Json)}

/-! ### The fields in front of the first that is refused -/

/-- Fields begin with variables, as many as there are up to the first that is refused. -/
theorem exists_variables (fields : List (String × Json)) :
    ∃ before, (∀ field ∈ before, Json.IsVariable field) ∧
      (fields = before ∨
        ∃ field after e, fields = before ++ field :: after ∧ Refused field e) := by
  induction fields with
  | nil => exact ⟨[], fun _ h => absurd h List.not_mem_nil, .inl rfl⟩
  | cons field fields ih =>
    rcases isVariable_or_refused field with hfield | ⟨e, hrefused⟩
    · obtain ⟨before, hbefore, h⟩ := ih
      refine ⟨field :: before, List.forall_mem_cons.mpr ⟨hfield, hbefore⟩, ?_⟩
      rcases h with rfl | ⟨stop, after, e, rfl, hstop⟩
      · exact .inl rfl
      · exact .inr ⟨stop, after, e, rfl, hstop⟩
    · exact ⟨[], fun _ h => absurd h List.not_mem_nil, .inr ⟨field, fields, e, rfl, hrefused⟩⟩

namespace Environment

/-! ### Fields that are bound -/

/-- An environment has these fields bound to the values of their documents. Otherwise it is the one
from before. -/
structure Binds (env : Environment) (fields : List (String × Json)) (bound : Environment) : Prop where
  values : ∀ n j, (n, j) ∈ fields → ∃ v, j.toValue = .ok v ∧ bound.find? n = some v
  others : ∀ n, (∀ field ∈ fields, n ≠ field.1) → bound.find? n = env.find? n
  functions : bound.functions = env.functions

/-- No field binds a function. -/
theorem functions_bindFields (env : Environment) (fields : List (String × Json)) :
    (env.bindFields fields).1.functions = env.functions := by
  induction fields generalizing env with
  | nil => rfl
  | cons field fields ih =>
    rw [bindFields]
    split
    · split
      · exact ih _
      · rfl
    · rfl

/-- Variables whose names ascend are all bound. -/
theorem binds_bindFields (env : Environment) (hordered : Table.Ordered fields)
    (h : ∀ field ∈ fields, Json.IsVariable field) : env.Binds fields (env.bindFields fields).1 where
  values := by
    intro n j hmem
    obtain ⟨hn, v, hv⟩ := Json.isVariable_iff.mp (h _ hmem)
    obtain ⟨before, after, rfl⟩ := List.append_of_mem hmem
    have hbefore : ∀ field ∈ before, Json.IsVariable field :=
      fun field hfield => h field (List.mem_append_left _ hfield)
    exact ⟨v, hv, env.find?_bindFields hordered hbefore hn hv⟩
  others := fun _ hother => env.find?_bindFields_other hother
  functions := env.functions_bindFields fields

/-- Some field is refused if the binding ends with a failure. -/
theorem bindFields_ne_none_iff (env : Environment) (fields : List (String × Json)) :
    (env.bindFields fields).2 ≠ none ↔ ∃ field ∈ fields, ∃ e, Refused field e := by
  rw [Ne, bindFields_eq_none_iff]
  constructor
  · intro h
    refine Classical.byContradiction fun hnone => h fun field hfield => ?_
    exact (isVariable_or_refused field).resolve_right fun hrefused => hnone ⟨field, hfield, hrefused⟩
  · rintro ⟨field, hfield, e, hrefused⟩ h
    exact hrefused.not_isVariable (h field hfield)

/-! ### Fields of an input -/

/-- **What a failed input leaves behind.** The fields of a JSON object are taken in ascending order of
their names; of several fields with one name the last one in the text counts. The input fails if a
field has a name that is empty or not made of letters, or a document that is no value. The failure is
that of the first such field, its name being looked at before its document. The environment is then
the one from before with the fields in front of that one bound, each to the value of its document; all
other variables and all functions are as they were. An input that does not fail has all fields
bound. -/
theorem bindInput_prefix (env : Environment) (h : Json.Entries input entries) :
    Table.Ordered (Table.ofList entries) ∧
    (∀ n, Table.find? (Table.ofList entries) n = Table.find? entries.reverse n) ∧
    ((env.bindInput input).2 ≠ none ↔ ∃ field ∈ Table.ofList entries, ∃ e, Refused field e) ∧
    ∃ before : List (String × Json), (∀ field ∈ before, ∀ e, ¬ Refused field e) ∧
      env.Binds before (env.bindInput input).1 ∧
      (Table.ofList entries = before ∧ (env.bindInput input).2 = none ∨
        ∃ field after e, Table.ofList entries = before ++ field :: after ∧ Refused field e ∧
          (env.bindInput input).2 = some e) := by
  have hordered : Table.Ordered (Table.ofList entries) := Table.ordered_ofList entries
  rw [env.bindInput_of_read? (Json.read?_eq_object_iff.mpr ⟨entries, h, rfl⟩)]
  refine ⟨hordered, Table.find?_ofList entries, env.bindFields_ne_none_iff _, ?_⟩
  obtain ⟨before, hbefore, hfields⟩ := exists_variables (Table.ofList entries)
  refine ⟨before, fun field hfield e hrefused => hrefused.not_isVariable (hbefore field hfield), ?_⟩
  rcases hfields with hfields | ⟨field, after, e, hfields, hrefused⟩
  · rw [hfields] at hordered ⊢
    exact ⟨env.binds_bindFields hordered hbefore,
      .inl ⟨rfl, (env.bindFields_eq_none_iff before).mpr hbefore⟩⟩
  · rw [hfields] at hordered ⊢
    -- fields before the refused one are still in order, so the last binding of each name is its
    -- only one
    obtain ⟨hordered, -⟩ := List.pairwise_append.mp hordered
    rw [env.bindFields_append hbefore, bindFields_refused _ hrefused]
    exact ⟨env.binds_bindFields hordered hbefore, .inr ⟨field, after, e, rfl, hrefused, rfl⟩⟩

/-- Two fields, one of which comes twice. The other one is refused for its name, which is not made of
letters alone. -/
theorem bindInput_prefix_digit :
    Json.Entries "\x7b\"a1\":3,\"a\":1,\"a\":2\x7d"
        [("a1", .integer 3), ("a", .integer 1), ("a", .integer 2)] ∧
      (Environment.empty.bindInput "\x7b\"a1\":3,\"a\":1,\"a\":2\x7d").2 ≠ none := by
  have hquoted (name rest : List Char) (h : name.flatMap Json.escapeChar = name) :
      Json.lexeme? '"' (name ++ '"' :: rest) = some (.scalar (.text (String.ofList name)), rest) := by
    have hlexeme := Json.lexeme?_quoted name rest
    rwa [h] at hlexeme
  have hlexemes : Json.lexemes? "\x7b\"a1\":3,\"a\":1,\"a\":2\x7d".toList =
      some [.openObject, .scalar (.text "a1"), .colon, .scalar (.integer 3), .comma,
        .scalar (.text "a"), .colon, .scalar (.integer 1), .comma,
        .scalar (.text "a"), .colon, .scalar (.integer 2), .closeObject] := by
    show Json.lexemes? ('\x7b' :: '"' :: (['a', '1'] ++ '"' :: ':' :: '3' :: ',' ::
      '"' :: (['a'] ++ '"' :: ':' :: '1' :: ',' :: '"' :: (['a'] ++ ['"', ':', '2', '\x7d'])))) = _
    rw [Json.lexemes?_lexeme rfl rfl, Json.lexemes?_lexeme rfl (hquoted _ _ rfl)]
    iterate 3 rw [Json.lexemes?_lexeme rfl rfl]
    rw [Json.lexemes?_lexeme rfl (hquoted _ _ rfl)]
    iterate 3 rw [Json.lexemes?_lexeme rfl rfl]
    rw [Json.lexemes?_lexeme rfl (hquoted _ _ rfl)]
    iterate 3 rw [Json.lexemes?_lexeme rfl rfl]
    rw [Json.lexemes?]
    rfl
  have hvalue (n : Int) : Json.readValue? [] [.scalar (.integer n)] = some (.integer n) := by
    rw [Json.readValue?, Json.readAfter?]
    rfl
  have hentries : Json.Entries "\x7b\"a1\":3,\"a\":1,\"a\":2\x7d"
      [("a1", .integer 3), ("a", .integer 1), ("a", .integer 2)] :=
    ⟨_, hlexemes, .members (.cons "a1" (hvalue 3) (.cons "a" (hvalue 1) (.last "a" (hvalue 2)))),
      by decide⟩
  obtain ⟨-, -, hfails, -⟩ := bindInput_prefix Environment.empty hentries
  refine ⟨hentries, hfails.mpr ⟨("a1", .integer 3), ?_, _, .name (.inr ⟨'1', by decide, by decide⟩)⟩⟩
  exact List.mem_cons_of_mem ("a", Json.integer 2) List.mem_cons_self

end Environment
end PixelCalc
