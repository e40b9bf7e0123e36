import PixelCalc.Evaluation
import PixelCalc.Proofs.Exchange.Bindings
import PixelCalc.Proofs.Syntax.Assembly
import PixelCalc.Proofs.Syntax.Word

/-!
# Names of variables

What a name is has to be asked three times: of the fields of an input, of the text before the `=` of a
binding, and of an expression. The answers are the same, so every variable that can be bound can be
read, and the other way round.

- `tokenize_eq_name_iff`: the texts that are one token, a name.
- `isName_of_parse`: the name of a binding.
- `Json.IsVariable`, `bindFields_eq_none_iff`: the fields that can be bound.
- `Refused`, `isVariable_or_refused`: the fields that cannot, for their name or, with a good name, for
  their document.
- `find?_bindFields`, `find?_bindInput`: a field that is reached is bound, and no other one takes its
  place.
- `bindable_names`: the names that can be bound are those that can be read, with their values.
-/

namespace PixelCalc

variable {n : String} {j : Json} {v : Value} {env : Environment} {input : String} {e : Failure}
  {field : String × Json} {fields before after : List (String × Json)}

/-! ### Names in expressions -/

/-- A text is a single token, the name that it spells, if it is made of letters. -/
theorem tokenize_eq_name_iff : tokenize n = .ok [.name n] ↔ isName n = true := by
  rw [tokenize_eq_ok_iff]
  constructor
  · intro h
    rw [Scan.scan_eq] at h
    cases hnext : Scan.next false n.toList with
    | token t rest =>
      rw [hnext] at h
      obtain ⟨htokens, -⟩ := Scan.Tokens.mk.inj h
      obtain ⟨rfl, -⟩ := List.cons.inj htokens
      obtain ⟨_, word, -, hword⟩ := Scan.next_eq_token_iff.mp hnext
      obtain ⟨hne, hletters, -, rfl⟩ := hword.of_name
      exact isName_iff.mpr (by rw [String.toList_ofList]; exact ⟨hne, hletters⟩)
    | _ =>
      rw [hnext] at h
      cases h
  · intro h
    have hscan := Reads.scan_name h false Scan.ends_nil
    rwa [List.append_nil, Scan.scan_nil] at hscan

/-- A name with a value has that value as an expression. -/
theorem evaluate_name (hn : isName n = true) (h : env.find? n = some v) :
    evaluate env n = (v, env) := by
  rw [evaluate, parse_name hn]
  show (env.value n, env) = _
  rw [Environment.value, h]
  rfl

/-! ### Names in bindings -/

namespace Binding

/-- The name that a binding is split off with consists of letters, and there is at least one. -/
theorem isName_of_split? {cs name rest : List Char} (h : split? cs = some (name, rest)) :
    isName (String.ofList name) = true := by
  unfold split? at h
  dsimp only at h
  split at h
  · rename_i hname _
    obtain ⟨rfl, -⟩ := Prod.mk.inj (Option.some.inj h)
    refine isName_iff.mpr ?_
    rw [String.toList_ofList]
    exact ⟨by rw [hname]; exact List.cons_ne_nil _ _,
      fun c hc => List.all_eq_true.mp List.all_takeWhile c hc⟩
  · cases h

/-- The name of a binding is a name. -/
theorem isName_of_parse {binding : String} (h : parse binding = .ok (n, v)) : isName n = true := by
  unfold parse at h
  split at h
  · cases h
  · rename_i hsplit
    split at h
    · cases h
    · split at h
      · cases h
      · rename_i j _
        cases hvalue : j.toValue with
        | error e =>
          rw [hvalue] at h
          cases h
        | ok w =>
          rw [hvalue] at h
          cases h
          exact isName_of_split? hsplit

end Binding

/-! ### Names in inputs -/

/-- The name of the field is a token, and its document has a value. -/
def Json.IsVariable (field : String × Json) : Prop :=
  tokenize field.1 = .ok [.name field.1] ∧ ∃ v, field.2.toValue = .ok v

/-- A field can be bound iff its name is a name and its value decodes. This is the form in which the
two conditions are taken apart. -/
theorem Json.isVariable_iff :
    IsVariable (n, j) ↔ isName n = true ∧ ∃ v, j.toValue = .ok v := by
  rw [IsVariable, tokenize_eq_name_iff]

/-- The field cannot be bound, for this reason. The name is looked at before the document. -/
inductive Refused : String × Json → Failure → Prop
  | name {n : String} {j : Json} (h : n = "" ∨ ∃ c ∈ n.toList, Text.isAlphabetic c = false) :
      Refused (n, j) (.badBinding n)
  | value {n : String} {j : Json} {e : Failure} (hne : n ≠ "")
      (hletters : ∀ c ∈ n.toList, Text.isAlphabetic c = true) (h : j.toValue = .error e) :
      Refused (n, j) e

/-- Names in words: at least one character, and letters only. -/
theorem isName_eq_true_iff : isName n = true ↔ n ≠ "" ∧ ∀ c ∈ n.toList, Text.isAlphabetic c = true := by
  rw [isName_iff, Ne, Ne, String.toList_eq_nil_iff]

theorem isName_eq_false_iff :
    isName n = false ↔ n = "" ∨ ∃ c ∈ n.toList, Text.isAlphabetic c = false := by
  rw [isName, Bool.and_eq_false_iff, Bool.not_eq_false', String.isEmpty_iff, List.all_eq_false]
  simp only [Bool.not_eq_true]

/-- A field that is refused is no variable. -/
theorem Refused.not_isVariable (h : Refused field e) : ¬ Json.IsVariable field := by
  intro hfield
  cases h with
  | name h =>
    obtain ⟨hn, -⟩ := Json.isVariable_iff.mp hfield
    rw [isName_eq_false_iff.mpr h] at hn
    cases hn
  | value _ _ h =>
    obtain ⟨-, v, hv⟩ := Json.isVariable_iff.mp hfield
    rw [h] at hv
    cases hv

/-- A field is a variable, or there is a reason why it is none. -/
theorem isVariable_or_refused (field : String × Json) :
    Json.IsVariable field ∨ ∃ e, Refused field e := by
  obtain ⟨n, j⟩ := field
  by_cases hn : isName n = true
  · cases hv : j.toValue with
    | ok v => exact .inl (Json.isVariable_iff.mpr ⟨hn, v, hv⟩)
    | error e =>
      obtain ⟨hne, hletters⟩ := isName_eq_true_iff.mp hn
      exact .inr ⟨e, .value hne hletters hv⟩
  · exact .inr ⟨_, .name (isName_eq_false_iff.mp (Bool.eq_false_iff.mpr hn))⟩

namespace Environment

/-- An input that is an object is bound field by field. -/
theorem bindInput_of_read? (env : Environment) (h : Json.read? input = some (.object fields)) :
    env.bindInput input = env.bindFields fields := by
  rw [bindInput, h]

/-- A field that can be bound is bound before the fields after it. -/
theorem bindFields_cons (env : Environment) (hn : isName n = true) (hv : j.toValue = .ok v)
    (fields : List (String × Json)) :
    env.bindFields ((n, j) :: fields) = (env.bind n v).bindFields fields := by
  rw [bindFields, if_pos hn, hv]

/-- A field that is refused ends the binding, and it is the one reported. -/
theorem bindFields_refused (env : Environment) (h : Refused field e) (fields : List (String × Json)) :
    env.bindFields (field :: fields) = (env, some e) := by
  cases h with
  | name h =>
    rw [bindFields, if_neg]
    rw [isName_eq_false_iff.mpr h]
    exact Bool.false_ne_true
  | value hne hletters h => rw [bindFields, if_pos (isName_eq_true_iff.mpr ⟨hne, hletters⟩), h]

/-- All fields are bound if all of them are variables. -/
theorem bindFields_eq_none_iff (env : Environment) (fields : List (String × Json)) :
    (env.bindFields fields).2 = none ↔ ∀ field ∈ fields, Json.IsVariable field := by
  induction fields generalizing env with
  | nil => exact iff_of_true rfl (fun _ h => absurd h List.not_mem_nil)
  | cons field fields ih =>
    obtain ⟨n, j⟩ := field
    rw [List.forall_mem_cons]
    rcases isVariable_or_refused (n, j) with hfield | ⟨e, hrefused⟩
    · obtain ⟨hn, v, hv⟩ := Json.isVariable_iff.mp hfield
      rw [bindFields_cons env hn hv, ih]
      exact (and_iff_right hfield).symm
    · rw [bindFields_refused env hrefused]
      refine iff_of_false (fun h => ?_) (fun h => hrefused.not_isVariable h.1)
      cases h

/-- Variables in front of other fields are bound before these. -/
theorem bindFields_append (env : Environment) (h : ∀ field ∈ before, Json.IsVariable field)
    (after : List (String × Json)) :
    env.bindFields (before ++ after) = (env.bindFields before).1.bindFields after := by
  induction before generalizing env with
  | nil => rfl
  | cons field before ih =>
    obtain ⟨hfield, h⟩ := List.forall_mem_cons.mp h
    obtain ⟨hn, v, hv⟩ := Json.isVariable_iff.mp hfield
    rw [List.cons_append, bindFields_cons env hn hv, bindFields_cons env hn hv, ih _ h]

/-- Fields leave the variables of other names alone. -/
theorem find?_bindFields_other (env : Environment) (h : ∀ field ∈ fields, n ≠ field.1) :
    (env.bindFields fields).1.find? n = env.find? n := by
  induction fields generalizing env with
  | nil => rfl
  | cons field fields ih =>
    obtain ⟨hn, h⟩ := List.forall_mem_cons.mp h
    rw [bindFields]
    split
    · split
      · rw [ih _ h, find?_bind_other _ hn]
      · rfl
    · rfl

/-- A field is bound if it is a variable and the fields before it are; the names ascending, it stays
bound. -/
theorem find?_bindFields (env : Environment) (hordered : Table.Ordered (before ++ (n, j) :: after))
    (hbefore : ∀ field ∈ before, Json.IsVariable field) (hn : isName n = true)
    (hv : j.toValue = .ok v) :
    (env.bindFields (before ++ (n, j) :: after)).1.find? n = some v := by
  obtain ⟨-, hordered, -⟩ := List.pairwise_append.mp hordered
  have hafter : ∀ field ∈ after, n ≠ field.1 := by
    -- names ascend, so no name comes again behind its field
    rintro field hfield rfl
    exact String.lt_irrefl _ ((List.pairwise_cons.mp hordered).1 field hfield)
  rw [bindFields_append env hbefore, bindFields_cons _ hn hv, find?_bindFields_other _ hafter,
    find?_bind_self]

/-- A field of an input is bound if it is a variable and the fields before it are; the names of an
input being different, it stays bound. -/
theorem find?_bindInput (env : Environment)
    (h : Json.read? input = some (.object (before ++ (n, j) :: after)))
    (hbefore : ∀ field ∈ before, Json.IsVariable field) (hn : isName n = true)
    (hv : j.toValue = .ok v) : (env.bindInput input).1.find? n = some v := by
  rw [bindInput_of_read? env h]
  exact env.find?_bindFields (Json.ordered_of_read? h) hbefore hn hv

end Environment

/-! ### Names that can be bound and read -/

/-- **Bindable names are the names that the language can read.** An input is accepted if each of its
fields has a name that is a single token and a document that has a value; with such a document every
text is accepted as a name, or not, as it is such a token. The name of a binding is one. And a variable
that is bound either way, the input being accepted up to it, has its value as an expression. -/
theorem bindable_names :
    (∀ (env : Environment) (input : String) (fields : List (String × Json)),
      Json.read? input = some (.object fields) →
        ((env.bindInput input).2 = none ↔ ∀ field ∈ fields, Json.IsVariable field)) ∧
    (∀ (env : Environment) (n t : String) (j : Json) (v : Value), Json.read? t = some j →
      Json.nesting t < Json.maxDepth → j.toValue = .ok v →
        ((env.bindInput (Json.fieldText n t)).2 = none ↔ tokenize n = .ok [.name n])) ∧
    (∀ (binding n : String) (v : Value), Binding.parse binding = .ok (n, v) →
      tokenize n = .ok [.name n] ∧
        ∀ env : Environment, evaluate (env.bind n v) n = (v, env.bind n v)) ∧
    ∀ (env : Environment) (input n : String) (j : Json) (v : Value)
      (before after : List (String × Json)),
      Json.read? input = some (.object (before ++ (n, j) :: after)) →
      (∀ field ∈ before, Json.IsVariable field) → tokenize n = .ok [.name n] → j.toValue = .ok v →
        evaluate (env.bindInput input).1 n = (v, (env.bindInput input).1) := by
  refine ⟨?_, ?_, ?_, ?_⟩
  · intro env input fields h
    rw [env.bindInput_of_read? h]
    exact env.bindFields_eq_none_iff fields
  -- one field whose text is nested less deeply than the reader allows: only its name can be refused
  · intro env n t j v h hnesting hv
    have hread : Json.read? (Json.fieldText n t) = some (.object [(n, j)]) := by
      rw [Json.read?_fieldText n h, if_neg (Nat.not_le_of_lt hnesting)]
    rw [env.bindInput_of_read? hread, env.bindFields_eq_none_iff, List.forall_mem_singleton,
      Json.IsVariable]
    exact ⟨And.left, fun hn => ⟨hn, v, hv⟩⟩
  -- the command line's bindings: the reader of bindings accepts names only
  · intro binding n v h
    have hn : isName n = true := Binding.isName_of_parse h
    exact ⟨tokenize_eq_name_iff.mpr hn, fun env => evaluate_name hn (env.find?_bind_self n v)⟩
  -- a field behind others that are bound: its value is the one that the name has from then on
  · intro env input n j v before after h hbefore hn hv
    rw [tokenize_eq_name_iff] at hn
    exact evaluate_name hn (env.find?_bindInput h hbefore hn hv)

/-- A letter is a name; with a space in front of it, it is none. -/
theorem bindable_names_letter :
    (Environment.empty.bindInput (Json.fieldText "x" "1")).2 = none ∧
      (Environment.empty.bindInput (Json.fieldText " x" "1")).2 ≠ none ∧
      evaluate (Environment.empty.bindInput (Json.fieldText "x" "1")).1 "x" =
        (.number (Binary64.ofInteger 1),
          (Environment.empty.bindInput (Json.fieldText "x" "1")).1) ∧
      tokenize "x" = .ok [.name "x"] := by
  have hlexemes : Json.lexemes? "1".toList = some [.scalar (.integer 1)] := by
    have hone : Json.lexeme? '1' [] = some (.scalar (.integer 1), []) := rfl
    show Json.lexemes? ['1'] = _
    rw [Json.lexemes?_lexeme rfl hone, Json.lexemes?]
    rfl
  have hread : Json.read? "1" = some (.integer 1) := by
    rw [Json.read?, hlexemes]
    rfl
  have hnesting : Json.nesting "1" < Json.maxDepth := by
    rw [Json.nesting, hlexemes]
    decide
  have hbinding : Binding.parse "x=1" = .ok ("x", .number (Binary64.ofInteger 1)) :=
    (Binding.parse_spell (n := "x") (by decide) hread).trans (if_neg (by decide))
  have hfield : Json.read? (Json.fieldText "x" "1") = some (.object [("x", .integer 1)]) := by
    rw [Json.read?_fieldText "x" hread, if_neg (Nat.not_le_of_lt hnesting)]
  obtain ⟨hfields, hname, hparse, hvalue⟩ := bindable_names
  obtain ⟨htoken, -⟩ := hparse _ _ _ hbinding
  refine ⟨?_, ?_, ?_, htoken⟩
  · exact (hfields .empty _ _ hfield).mpr (List.forall_mem_singleton.mpr ⟨htoken, _, rfl⟩)
  · refine mt (hname .empty _ _ _ _ hread hnesting rfl).mp ?_
    rw [tokenize_eq_name_iff]
    decide
  · exact hvalue .empty _ _ _ _ [] [] hfield (fun _ h => absurd h List.not_mem_nil) htoken rfl

end PixelCalc
