import PixelCalc.Proofs.Commas.Listing

/-!
# Where commas stand

In a group with commas the items are segments and commas by turns, a segment first and a segment last,
and no segment has a comma of its own. Grouping brings this about, and folding keeps it: so there is
nothing else where the arguments of a call are looked for.

- `Listed.CommaShape`: segments with a comma between any two of them.
- `Listed.Holds`, `Listed.Shaped`: the groups in an expression at any depth, and that those with commas
  have that shape.
- `Listed.KeepsShape`: what folding a group leaves as it was, and the arguments that a call has from it.
- `Listed.exists_of_holds`: every group in a listed tree is the list of segments.
- `Listed.comma_groups`: the shape through reading, and what it is good for.
-/

namespace PixelCalc
namespace Listed

/-! ### The shape -/

/-- The item is a comma. -/
def Item.isComma : Item → Bool
  | comma => true
  | _ => false

/-- The number of commas among items. -/
def commas (items : List Item) : Nat :=
  items.countP Item.isComma

/-- The items are segments with commas between them: an odd number of items, at least three, a group
without a comma in every even place and a comma in every odd one. -/
structure CommaShape (items : List Item) : Prop where
  odd : items.length % 2 = 1
  three_le : 3 ≤ items.length
  segment : ∀ i, 2 * i < items.length →
    ∃ segment, items[2 * i]? = some (.expr (.group segment false)) ∧ .comma ∉ segment
  comma : ∀ i, 2 * i + 1 < items.length → items[2 * i + 1]? = some .comma

/-- The expression holds the group, at whatever depth. -/
inductive Holds : Expr → Group → Prop
  | self (g : Group) : Holds g.toExpr g
  | item {items : List Item} {hasComma : Bool} {e : Expr} {g : Group} (he : .expr e ∈ items)
      (h : Holds e g) : Holds (.group items hasComma) g
  | left {op : Operator} {left right : Expr} {g : Group} (h : Holds left g) :
      Holds (.operation op left right) g
  | right {op : Operator} {left right : Expr} {g : Group} (h : Holds right g) :
      Holds (.operation op left right) g
  | argument {n : String} {arguments : List Expr} {e : Expr} {g : Group} (he : e ∈ arguments)
      (h : Holds e g) : Holds (.call n arguments) g

/-- The group, and every group in it at any depth, has its segments and commas in their places. -/
def Shaped (g : Group) : Prop :=
  ∀ inner, Holds g.toExpr inner → inner.hasComma = true → CommaShape inner.items

/-- As the brackets of a call the group gives these arguments. A value before a dot comes first. -/
structure GivesArguments (g : Group) (arguments : List Expr) : Prop where
  call : ∀ n passed, passed.head? ≠ some .dot →
    placeGroup g (.expr (.name n) :: passed) = .ok (.expr (.call n arguments) :: passed)
  method : ∀ n receiver passed,
    placeGroup g (.expr (.name n) :: .dot :: .expr receiver :: passed) =
      .ok (.expr (.call n (receiver :: arguments)) :: passed)

/-- What folding a group to `r` leaves as it was: segments and commas are in their places, and there are
as many items as before. A call on the folded group has the segments as its arguments, one more than
there were commas, each in brackets of its own. -/
structure KeepsShape (g r : Group) : Prop where
  shaped : Shaped r
  hasComma_eq : r.hasComma = g.hasComma
  length_eq (h : g.hasComma = true) : r.items.length = g.items.length
  arguments (h : g.hasComma = true) : ∃ args, Listed.arguments r = .ok args ∧ GivesArguments r args ∧
    args.length = commas g.items + 1 ∧ (∀ a ∈ args, ∃ segment, a = .group segment false) ∧
    ∀ i, args[i]?.map Item.expr = r.items[2 * i]?

/-- Arguments that can be read off a group are the ones that both forms of a call receive: the plain
one, with no dot before the name, and the method call, behind its receiver. -/
theorem givesArguments_of_arguments {g : Group} {args : List Expr} (h : arguments g = .ok args) :
    GivesArguments g args where
  call := by
    intro n passed hdot
    have hcall : placeGroup g (.expr (.name n) :: passed) =
        arguments g >>= fun args => .ok (.expr (.call n args) :: passed) := by
      cases passed with
      | nil => rfl
      | cons item passed =>
        cases item with
        | dot => exact absurd rfl hdot
        | _ => rfl
    rw [hcall, h]
    rfl
  method := by
    intro n receiver passed
    show (arguments g >>= fun args => .ok (.expr (.call n (receiver :: args)) :: passed)) = _
    rw [h]
    rfl

end Listed

/-! ### Lists of segments -/

/-- Every segment after the first one brings two items, itself and its comma. -/
theorem length_listSegments (segments : List (List Item)) :
    (listSegments segments).length = 2 * segments.length := by
  induction segments with
  | nil => rfl
  | cons segment segments ih =>
    simp only [listSegments, List.length_cons, ih]
    omega

/-- The number of items is odd: segments alternate with commas and both ends are segments. -/
theorem length_separated (first : List Item) (more : List (List Item)) :
    (separated first more).length = 2 * more.length + 1 := by
  rw [separated, List.length_cons, length_listSegments]

/-- There is one comma less than there are segments. -/
theorem commas_separated (first : List Item) (more : List (List Item)) :
    Listed.commas (separated first more) = more.length := by
  induction more generalizing first with
  | nil => rfl
  | cons second more ih =>
    show (.expr _ :: .comma :: separated second more).countP _ = _
    rw [List.countP_cons_of_neg Bool.false_ne_true, List.countP_cons_of_pos rfl]
    exact congrArg Nat.succ (ih second)

/-- The segments stand in the even places. -/
theorem separated_even (first : List Item) (more : List (List Item)) (i : Nat) :
    (separated first more)[2 * i]? =
      (first :: more)[i]?.map fun segment => .expr (.group (listItems segment) false) := by
  induction more generalizing first i with
  | nil => cases i <;> rfl
  | cons second more ih =>
    cases i with
    | zero => rfl
    | succ i =>
      show (.comma :: separated second more)[2 * i + 1]? = _
      rw [List.getElem?_cons_succ, ih, List.getElem?_cons_succ]

/-- The commas stand in the odd places. -/
theorem separated_odd (first : List Item) (more : List (List Item)) {i : Nat} (h : i < more.length) :
    (separated first more)[2 * i + 1]? = some .comma := by
  induction more generalizing first i with
  | nil => exact absurd h (Nat.not_lt_zero i)
  | cons second more ih =>
    cases i with
    | zero => rfl
    | succ i =>
      show (.comma :: separated second more)[2 * i + 1 + 1]? = _
      rw [List.getElem?_cons_succ]
      exact ih second (Nat.lt_of_succ_lt_succ h)

/-- Inside a segment there is no comma, since the lister puts them between segments only. -/
theorem comma_not_mem_listItems (items : List Item) : .comma ∉ listItems items := by
  rw [listItems_eq_map]
  intro h
  obtain ⟨item, -, hitem⟩ := List.mem_map.mp h
  cases item <;> cases hitem

/-- Two segments or more have the comma shape: segments in the even places, commas in the odd ones.
-/
theorem commaShape_separated (first second : List Item) (more : List (List Item)) :
    Listed.CommaShape (separated first (second :: more)) where
  odd := by
    rw [length_separated]
    omega
  three_le := by
    rw [length_separated, List.length_cons]
    omega
  segment := by
    intro i hi
    rw [length_separated] at hi
    have hlt : i < (first :: second :: more).length := by
      rw [List.length_cons]
      omega
    refine ⟨listItems (first :: second :: more)[i], ?_, comma_not_mem_listItems _⟩
    rw [separated_even, List.getElem?_eq_getElem hlt, Option.map_some]
  comma := by
    intro i hi
    rw [length_separated] at hi
    exact separated_odd first (second :: more) (by omega)

/-- A listed group that is said to have a comma has several segments, so it has the comma shape. -/
theorem Group.commaShape_listed {g : Group} (h : g.listed.hasComma = true) :
    Listed.CommaShape g.listed.items := by
  obtain ⟨first, more⟩ := g
  cases more with
  | nil => cases h
  | cons second more => exact commaShape_separated first second more

/-! ### Groups in listed trees -/

/-- Whatever stands in listed arguments is a listed expression. -/
theorem exists_of_mem_listAll {es : List Expr} {e : Listed.Expr} (h : e ∈ listAll es) :
    ∃ e' : Expr, e = e'.listed := by
  rw [listAll_eq_map] at h
  obtain ⟨e', -, rfl⟩ := List.mem_map.mp h
  exact ⟨e', rfl⟩

/-- Whatever stands in a listed segment is a listed expression. -/
theorem exists_of_mem_listItems {items : List Item} {e : Listed.Expr}
    (h : .expr e ∈ listItems items) : ∃ e' : Expr, e = e'.listed := by
  rw [listItems_eq_map] at h
  obtain ⟨item, -, hitem⟩ := List.mem_map.mp h
  cases item with
  | expr e' =>
    cases hitem
    exact ⟨e', rfl⟩
  | _ => cases hitem

/-- Whatever stands between commas is a listed expression too, namely the group of its segment. -/
theorem exists_of_mem_separated {first : List Item} {more : List (List Item)} {e : Listed.Expr}
    (h : .expr e ∈ separated first more) : ∃ e' : Expr, e = e'.listed := by
  -- Induction on the segments; the head of each list is the group of a segment or a comma.
  induction more generalizing first with
  | nil =>
    rcases List.mem_cons.mp h with h | h
    · cases h
      exact ⟨.group first [], rfl⟩
    · cases h
  | cons second more ih =>
    rcases List.mem_cons.mp h with h | h
    · cases h
      exact ⟨.group first [], rfl⟩
    · rcases List.mem_cons.mp h with h | h
      · cases h
      · exact ih h

/-- A listed tree that is a group is the list of segments. -/
theorem exists_of_listed_eq_group {e : Expr} {items : List Listed.Item} {hasComma : Bool}
    (h : e.listed = .group items hasComma) : ∃ g : Group, g.listed = ⟨items, hasComma⟩ := by
  cases e with
  | group first more =>
    refine ⟨⟨first, more⟩, ?_⟩
    cases more <;> cases h <;> rfl
  | _ => cases h

namespace Listed

/-- Every group in a listed tree is the list of segments. -/
theorem exists_of_holds {e : PixelCalc.Expr} {g : Group} (h : Holds e.listed g) :
    ∃ g' : PixelCalc.Group, g'.listed = g := by
  generalize hlisted : e.listed = tree at h
  -- induction on the way down to the group; the tree that is listed goes along with it
  induction h generalizing e with
  | self g => exact exists_of_listed_eq_group hlisted
  | item he _ ih =>
    obtain ⟨⟨first, more⟩, hgroup⟩ := exists_of_listed_eq_group hlisted
    cases more with
    | nil =>
      cases hgroup
      obtain ⟨e', rfl⟩ := exists_of_mem_listItems he
      exact ih rfl
    | cons second more =>
      cases hgroup
      obtain ⟨e', rfl⟩ := exists_of_mem_separated he
      exact ih rfl
  | left _ ih =>
    cases e with
    | operation op left right =>
      cases hlisted
      exact ih rfl
    | group first more => cases more <;> cases hlisted
    | _ => cases hlisted
  | right _ ih =>
    cases e with
    | operation op left right =>
      cases hlisted
      exact ih rfl
    | group first more => cases more <;> cases hlisted
    | _ => cases hlisted
  | argument he _ ih =>
    cases e with
    | call n arguments =>
      cases hlisted
      obtain ⟨e', rfl⟩ := exists_of_mem_listAll he
      exact ih rfl
    | group first more => cases more <;> cases hlisted
    | _ => cases hlisted

/-- The list of the segments of a group has its commas in their places. -/
theorem shaped_listed (g : PixelCalc.Group) : Shaped g.listed := by
  intro inner hinner hcomma
  rw [← Group.toExpr_listed] at hinner
  obtain ⟨g', rfl⟩ := exists_of_holds hinner
  exact g'.commaShape_listed hcomma

/-- Wherever grouping is in the input, what stands in the innermost brackets is a list of segments. -/
theorem exists_of_reaches (reached : Nesting.Level × List (Bracket × Nesting.Level))
    {words : List Word} {s : Open} (h : Open.Reaches (Nesting.listOpen reached) words s) :
    ∃ reached', s = Nesting.listOpen reached' := by
  -- Induction along the steps. Every state that is reached lists a level with its open brackets,
  -- since `Nesting.step_listed` takes one listed state to another; no step goes on after an error.
  generalize hlisted : Nesting.listOpen reached = start at h
  induction h generalizing reached with
  | refl s words => exact ⟨reached, hlisted.symm⟩
  | @step s next s' word rest hword hstep _ ih =>
    subst hlisted
    cases word with
    | eof => cases hword
    | token t =>
      rw [Nesting.step_listed] at hstep
      cases hnext : Nesting.next reached.1 reached.2 t with
      | ok reached' =>
        rw [hnext] at hstep
        exact ih reached' (Except.ok.inj hstep)
      | error e =>
        rw [hnext] at hstep
        cases hstep

/-- The group that the innermost brackets would be has its commas in their places. -/
theorem shaped_of_reaches {words : List Word} {s : Open}
    (h : Open.Reaches ⟨.start, []⟩ words s) : Shaped s.level.finish := by
  obtain ⟨⟨level, outer⟩, rfl⟩ := exists_of_reaches (.start, []) h
  show Shaped level.listed.finish
  rw [← Nesting.Level.listed_close]
  exact shaped_listed level.close

end Listed

/-! ### Folding and calls -/

/-- Folding keeps the number of segments, the empty ones included. -/
theorem length_of_resolveSegments {segments out : List (List Item)}
    (h : Folding.resolveSegments segments = .ok out) : out.length = segments.length := by
  induction segments generalizing out with
  | nil => rw [Folding.resolveSegments_nil_inv h]
  | cons segment segments ih =>
    obtain ⟨_, folded, rest, -, -, hrest, rfl⟩ := Folding.resolveSegments_cons_inv h
    rw [List.length_cons, List.length_cons, ih hrest]

namespace Group

variable {g : Group}

/-- With a comma in it, the list of a group is its segments with the commas between them. -/
theorem items_listed (h : g.listed.hasComma = true) : g.listed.items = separated g.first g.more := by
  obtain ⟨first, more⟩ := g
  cases more with
  | nil => cases h
  | cons second more => rfl

/-- Whether there is a comma depends on the number of segments only. -/
theorem hasComma_eq_of_length {r : Group} (h : r.more.length = g.more.length) :
    r.listed.hasComma = g.listed.hasComma := by
  obtain ⟨first, more⟩ := g
  obtain ⟨first', more'⟩ := r
  cases more <;> cases more' <;> first | rfl | cases h

/-- A group that is folded has as many segments as before. -/
theorem exists_of_resolve_listed {r : Listed.Group} (h : Listed.resolve g.listed = .ok r) :
    ∃ r' : Group, r = r'.listed ∧ r'.more.length = g.more.length := by
  rw [resolve_listed] at h
  cases hresolve : g.resolve with
  | ok r' =>
    rw [hresolve] at h
    obtain ⟨_, -, -, hmore⟩ := Folding.resolve_inv hresolve
    exact ⟨r', (Except.ok.inj h).symm, length_of_resolveSegments hmore⟩
  | error e =>
    rw [hresolve] at h
    cases h

/-- In a call every segment is an argument. -/
theorem arguments_of_hasComma (h : g.listed.hasComma = true) :
    ∃ args, Listed.arguments g.listed = .ok args ∧ args.length = g.more.length + 1 ∧
      (∀ a ∈ args, ∃ segment, a = .group segment false) ∧
      ∀ i, args[i]?.map Listed.Item.expr = g.listed.items[2 * i]? := by
  have harguments : listAll (Folding.arguments g.first g.more) =
      (g.first :: g.more).map fun segment => .group (listItems segment) false := by
    obtain ⟨first, more⟩ := g
    cases more with
    | nil => cases h
    | cons second more =>
      rw [listAll_eq_map]
      cases first <;> exact List.map_map
  refine ⟨_, Folding.arguments_listed g, ?_, ?_, ?_⟩
  · rw [harguments, List.length_map, List.length_cons]
  · intro a ha
    rw [harguments] at ha
    obtain ⟨segment, -, rfl⟩ := List.mem_map.mp ha
    exact ⟨_, rfl⟩
  · intro i
    rw [harguments, items_listed h, separated_even, List.getElem?_map, Option.map_map]
    rfl

end Group

namespace Listed

/-- What folding gives back has as many items as it was given, commas in the same places, and a
group in each of the others. -/
theorem keepsShape_of_resolve {g : PixelCalc.Group} {r : Group} (h : resolve g.listed = .ok r) :
    KeepsShape g.listed r := by
  obtain ⟨r, rfl, hlength⟩ := Group.exists_of_resolve_listed h
  have hcomma : r.listed.hasComma = g.listed.hasComma := Group.hasComma_eq_of_length hlength
  refine ⟨shaped_listed r, hcomma, fun hg => ?_, fun hg => ?_⟩
  · have hr : r.listed.hasComma = true := hcomma.trans hg
    rw [Group.items_listed hr, Group.items_listed hg, length_separated, length_separated, hlength]
  · have hr : r.listed.hasComma = true := hcomma.trans hg
    obtain ⟨args, harguments, hcount, hbracketed, hsegments⟩ := Group.arguments_of_hasComma hr
    refine ⟨args, harguments, givesArguments_of_arguments harguments, ?_, hbracketed, hsegments⟩
    rw [hcount, Group.items_listed hg, commas_separated, hlength]

/-- The group of a source is the list of what its tokens are nested to. -/
theorem exists_of_read {source : String} {g : Group} (h : read source = .ok g) :
    ∃ g' : PixelCalc.Group, g'.listed = g := by
  rw [read_listed] at h
  cases hnest : tokenize source >>= nest with
  | ok g' =>
    rw [hnest] at h
    exact ⟨g', Except.ok.inj h⟩
  | error e =>
    rw [hnest] at h
    cases h

/-- **Commas keep their places.** Wherever grouping has come to in the input, the group that the
innermost brackets would be has its segments and commas by turns, and so has every group in it at any
depth; that holds for the group of a source. Folding any of these groups keeps the shape and the number
of segments, and these are the arguments of a call. So no place is come to that reading is not meant to
get to: neither the end of the input among the words, nor an argument that is no segment. And with
segments as lists of their own every source is read in the same way. -/
theorem comma_groups :
    (∀ words s, Open.Reaches ⟨.start, []⟩ words s → Shaped s.level.finish) ∧
    (∀ source g, read source = .ok g → Shaped g ∧ ∀ inner, Holds g.toExpr inner →
      resolve inner ≠ .error .unreachable ∧
      ∀ r, resolve inner = .ok r → KeepsShape inner r) ∧
    (∀ words, group words ≠ .error .unreachable) ∧
    ∀ source,
      read source = listResult Group.listed (tokenize source >>= nest) ∧
      parse source = listResult Expr.listed (PixelCalc.parse source) ∧
      parse source ≠ .error .unreachable := by
  refine ⟨fun _ _ => shaped_of_reaches, ?_, ?_, ?_⟩
  · intro source g hread
    obtain ⟨g, rfl⟩ := exists_of_read hread
    refine ⟨shaped_listed g, fun inner hinner => ?_⟩
    rw [← Group.toExpr_listed] at hinner
    -- what is held in a list of segments is one itself, so its folding is that of the segments
    obtain ⟨inner, rfl⟩ := exists_of_holds hinner
    refine ⟨?_, fun r => keepsShape_of_resolve⟩
    rw [Group.resolve_listed]
    exact listResult_ne_unreachable _ _
  · intro words
    rw [Nesting.group_listed]
    exact listResult_ne_unreachable _ _
  · intro source
    refine ⟨read_listed source, parse_listed source, ?_⟩
    rw [parse_listed]
    exact listResult_ne_unreachable _ _

/-- The call `f(x,)` has an empty segment behind its comma, and so two arguments. -/
theorem comma_groups_empty_segment :
    let brackets : Group := ⟨[.expr (.group [.expr (.name "x")] false), .comma, .expr (.group [] false)],
      true⟩
    read "f(x,)" = .ok ⟨[.expr (.name "f"), .expr brackets.toExpr], false⟩ ∧
      CommaShape brackets.items ∧ resolve brackets = .ok brackets ∧ commas brackets.items = 1 ∧
      ∃ args, arguments brackets = .ok args ∧ args.length = 2 := by
  intro brackets
  have hscan : Scan.scan false "f(x,)".toList =
      ⟨[.name "f", .opening .round, .name "x", .comma, .closing .round], none⟩ := by
    have hf : Scan.next false "f(x,)".toList = .token (.name "f") "(x,)".toList := rfl
    have hopening : Scan.next (Token.name "f").endsValue "(x,)".toList =
        .token (.opening .round) "x,)".toList := rfl
    have hx : Scan.next (Token.opening .round).endsValue "x,)".toList =
        .token (.name "x") ",)".toList := rfl
    have hcomma : Scan.next (Token.name "x").endsValue ",)".toList = .token .comma ")".toList := rfl
    have hclosing : Scan.next Token.comma.endsValue ")".toList = .token (.closing .round) [] := rfl
    rw [Scan.scan_of_token hf, Scan.scan_of_token hopening, Scan.scan_of_token hx,
      Scan.scan_of_token hcomma, Scan.scan_of_token hclosing, Scan.scan_nil]
  have hread : read "f(x,)" = .ok ⟨[.expr (.name "f"), .expr brackets.toExpr], false⟩ := by
    rw [read, tokenize_eq_ok_iff.mpr hscan]
    rfl
  have hheld : Holds (.group [.expr (.name "f"), .expr brackets.toExpr] false) brackets :=
    .item (.tail _ (.head _)) (.self brackets)
  have hresolve : resolve brackets = .ok brackets := by
    simp only [resolve, brackets, resolveItems]
    rfl
  obtain ⟨-, hread', -⟩ := comma_groups
  obtain ⟨hshaped, hgroups⟩ := hread' _ _ hread
  obtain ⟨-, hresolved⟩ := hgroups brackets hheld
  obtain ⟨args, hargs, -, hcount, -⟩ := (hresolved brackets hresolve).arguments rfl
  exact ⟨hread, hshaped brackets hheld rfl, hresolve, rfl, args, hargs, hcount⟩

end Listed

end PixelCalc
