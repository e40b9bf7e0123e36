/-!
# Tables

A table maps names to entries. It is kept in ascending order of the names, so that its entries come
in one order only, whatever the order in which they were entered.

- `find?`, `insert`, `erase`: look-up and change, with the laws of what a look-up finds after a
  change.
- `ofList`: the table of a list of pairs; `find?_ofList` says that the last of several entries for a
  name counts.
- `Ordered`: the names ascend; `insert`, `erase` and `ofList` see to it.
-/

namespace PixelCalc

/-- Entries by name, in ascending order of the names. -/
abbrev Table (α : Type) : Type :=
  List (String × α)

namespace Table

variable {α : Type}

/-- The entry for a name. -/
def find? : Table α → String → Option α
  | [], _ => none
  | (key, entry) :: rest, name => if key = name then some entry else find? rest name

/-- The table with an entry for a name, in place of the one it may have had. -/
def insert : Table α → String → α → Table α
  | [], name, new => [(name, new)]
  | (key, entry) :: rest, name, new =>
    if key = name then (name, new) :: rest
    else if name < key then (name, new) :: (key, entry) :: rest
    else (key, entry) :: insert rest name new

/-- The table without an entry for a name. -/
def erase (t : Table α) (name : String) : Table α :=
  t.filter fun pair => pair.1 ≠ name

/-- The names in order. -/
def names (t : Table α) : List String :=
  t.map Prod.fst

/-- The table of a list of pairs. Of several pairs with one name the last counts. -/
def ofList (pairs : List (String × α)) : Table α :=
  pairs.foldl (fun t pair => insert t pair.1 pair.2) []

/-- The name that is entered is found with its new entry. -/
@[simp] theorem find?_insert_self (name : String) (new : α) :
    ∀ t : Table α, find? (insert t name new) name = some new
  | [] => by simp [insert, find?]
  | (key, entry) :: rest => by
    by_cases h : key = name
    · simp [insert, find?, h]
    · by_cases hlt : name < key
      · simp [insert, find?, h, hlt]
      · simp [insert, find?, h, hlt, find?_insert_self name new rest]

/-- Entering a name changes no other one. -/
theorem find?_insert_other {name other : String} (h : other ≠ name) (new : α) :
    ∀ t : Table α, find? (insert t name new) other = find? t other
  | [] => by simp [insert, find?, Ne.symm h]
  | (key, entry) :: rest => by
    by_cases hkey : key = name
    · subst hkey
      simp [insert, find?, Ne.symm h]
    · by_cases hlt : name < key
      · simp [insert, find?, hkey, hlt, Ne.symm h]
      · simp [insert, find?, hkey, hlt, find?_insert_other h new rest]

/-- A name that is taken out is no longer found. -/
@[simp] theorem find?_erase_self (name : String) :
    ∀ t : Table α, find? (erase t name) name = none
  | [] => rfl
  | (key, entry) :: rest => by
    have ih := find?_erase_self name rest
    by_cases h : key = name
    · simpa [erase, h] using ih
    · simpa [erase, find?, h] using ih

/-- Taking a name out changes no other one. -/
theorem find?_erase_other {name other : String} (h : other ≠ name) :
    ∀ t : Table α, find? (erase t name) other = find? t other
  | [] => rfl
  | (key, entry) :: rest => by
    have ih := find?_erase_other h rest
    by_cases hkey : key = name
    · subst hkey
      simpa [erase, find?, Ne.symm h] using ih
    · by_cases hother : key = other
      · simp [erase, find?, hother, h]
      · simpa [erase, find?, hkey, hother] using ih

/-- Of several entries with one name a table has the last. -/
theorem find?_ofList (pairs : List (String × α)) (name : String) :
    find? (ofList pairs) name = find? pairs.reverse name := by
  have happend (t rest : Table α) : find? (t ++ rest) name = (find? t name).or (find? rest name) := by
    induction t with
    | nil => rfl
    | cons pair t ih =>
      rw [List.cons_append, find?, find?]
      split
      · rfl
      · exact ih
  suffices ∀ t : Table α, find? (pairs.foldl (fun t pair => insert t pair.1 pair.2) t) name =
      find? (pairs.reverse ++ t) name by
    rw [ofList, this, List.append_nil]
  induction pairs with
  | nil => exact fun _ => rfl
  | cons pair pairs ih =>
    intro t
    rw [List.foldl_cons, ih, List.reverse_cons, List.append_assoc, happend, happend]
    congr 1
    show find? (insert t pair.1 pair.2) name = find? (pair :: t) name
    by_cases h : pair.1 = name
    · subst h
      rw [find?_insert_self, find?, if_pos rfl]
    · rw [find?_insert_other (Ne.symm h), find?, if_neg h]

/-! ### Order -/

/-- The names of a table ascend. -/
def Ordered (t : Table α) : Prop :=
  t.Pairwise fun a b => a.1 < b.1

/-- A pair in a table after an insertion is the new one, or it was there before. -/
theorem mem_of_mem_insert {name : String} {new : α} {pair : String × α} {t : Table α}
    (h : pair ∈ insert t name new) : pair = (name, new) ∨ pair ∈ t := by
  induction t with
  | nil => exact .inl (List.mem_singleton.mp h)
  | cons head rest ih =>
    obtain ⟨key, entry⟩ := head
    unfold insert at h
    split at h
    · rcases List.mem_cons.mp h with h | h
      · exact .inl h
      · exact .inr (List.mem_cons_of_mem _ h)
    · split at h
      · exact List.mem_cons.mp h
      · rcases List.mem_cons.mp h with rfl | h
        · exact .inr (List.mem_cons_self ..)
        · exact (ih h).imp id (List.mem_cons_of_mem _)

/-- An insertion keeps the order. -/
theorem ordered_insert (name : String) (new : α) {t : Table α} (h : Ordered t) :
    Ordered (insert t name new) := by
  induction t with
  | nil => exact List.pairwise_singleton _ _
  | cons head rest ih =>
    obtain ⟨key, entry⟩ := head
    obtain ⟨hhead, htail⟩ := List.pairwise_cons.mp h
    unfold insert
    split
    · rename_i hkey
      subst hkey
      exact List.pairwise_cons.mpr ⟨hhead, htail⟩
    · rename_i hkey
      split
      · rename_i hlt
        refine List.pairwise_cons.mpr ⟨fun pair hpair => ?_, h⟩
        rcases List.mem_cons.mp hpair with rfl | hpair
        · exact hlt
        · exact String.lt_trans hlt (hhead pair hpair)
      -- the first name stays the least, as the new one is neither less than it nor equal
      · rename_i hlt
        have hgt : key < name := by
          rcases Std.lt_trichotomy name key with hl | he | hg
          · exact absurd hl hlt
          · exact absurd he.symm hkey
          · exact hg
        refine List.pairwise_cons.mpr ⟨fun pair hpair => ?_, ih htail⟩
        rcases mem_of_mem_insert hpair with rfl | hpair
        · exact hgt
        · exact hhead pair hpair

/-- Taking an entry away keeps the order. -/
theorem ordered_erase (name : String) {t : Table α} (h : Ordered t) : Ordered (erase t name) :=
  List.Pairwise.filter _ h

/-- The table of a list is in order, whatever the order of the list. -/
theorem ordered_ofList (pairs : List (String × α)) : Ordered (ofList pairs) := by
  suffices ∀ t : Table α, Ordered t →
      Ordered (pairs.foldl (fun t pair => insert t pair.1 pair.2) t) from this [] List.Pairwise.nil
  induction pairs with
  | nil => exact fun _ h => h
  | cons pair rest ih => exact fun t h => ih _ (ordered_insert pair.1 pair.2 h)

end Table

end PixelCalc
