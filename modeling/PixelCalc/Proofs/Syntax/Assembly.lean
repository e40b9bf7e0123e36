import PixelCalc.Exchange.Binding
import PixelCalc.Proofs.Sequencing
import PixelCalc.Proofs.Syntax.Lookahead
import PixelCalc.Syntax.Folding

/-!
# Sources put together

A source that stands in brackets, or between the commas of a call, is read there as it is read
alone: scanning comes to a bracket or a comma behind it, and nesting builds its segments as part of
a larger group.

- `Within`: a run of nesting as part of a larger run.
- `Reads cs g`: the text `cs` is scanned and nested to the group `g`; `Reads.round`,
  `Reads.operation`, `Reads.comma`, `Reads.call` and `Reads.index` put texts together.
- `Folds segment e`: the segment is folded to the expression `e`; `folds_round`, `folds_operation`,
  `folds_call` and `folds_index` do so for the groups of such texts.
- `parse_round`, `parse_operation`, `parse_call`, `parse_index`: the trees of sources put together.
-/

namespace PixelCalc

/-! ### Nesting as part of a larger run -/

namespace Nesting

/-- The level with earlier segments in front of its own. -/
def Level.after (ended : List (List Item)) (level : Level) : Level :=
  ⟨ended ++ level.ended, level.current⟩

/-- A level that goes on behind the segments of a group closes to those segments and its own. -/
theorem Level.close_after (g : Group) (level : Level) :
    (level.after g.segments).close = ⟨g.first, g.more ++ level.close.segments⟩ := by
  rw [Level.segments_close, ← List.append_assoc]
  rfl

theorem Level.comma_eq (level : Level) : level.comma = Level.start.after level.close.segments := by
  unfold Level.comma Level.after Level.start
  rw [Level.segments_close, List.append_nil]

/-- A run of nesting and the same run as part of a larger one: its lowest level comes after the
segments `ended` and has the brackets `below` around it. -/
inductive Within (ended : List (List Item)) (below : List (Bracket × Level)) :
    Level → List (Bracket × Level) → Level → List (Bracket × Level) → Prop
  | lowest (level : Level) : Within ended below level [] (level.after ended) below
  | inside {around around' : Level} {outer outer' : List (Bracket × Level)}
      (h : Within ended below around outer around' outer') (b : Bracket) (level : Level) :
      Within ended below level ((b, around) :: outer) level ((b, around') :: outer')

variable {ended : List (List Item)} {below outer outer' : List (Bracket × Level)}
variable {level level' : Level} {tokens : List Token} {g : Group}

/-- Both runs push alike. -/
theorem Within.push (h : Within ended below level outer level' outer') (items : List Item) :
    Within ended below (level.push items) outer (level'.push items) outer' := by
  cases h with
  | lowest => exact .lowest (level.push items)
  | inside h b => exact .inside h b (level.push items)

theorem Within.comma (h : Within ended below level outer level' outer') :
    Within ended below level.comma outer level'.comma outer' := by
  cases h with
  | lowest =>
    have hcomma : (level.after ended).comma = level.comma.after ended := by
      unfold Level.comma Level.after
      rw [List.append_assoc]
    rw [hcomma]
    exact .lowest level.comma
  | inside h b => exact .inside h b level.comma

/-- Tokens that nest alone are passed in the larger run as well, and leave the same there. -/
theorem nestFrom_within (h : Within ended below level outer level' outer')
    (hnest : nestFrom level outer tokens = .ok g) :
    ∃ final : Level, final.close = g ∧ ∀ rest,
      nestFrom level' outer' (tokens ++ rest) = nestFrom (final.after ended) below rest := by
  -- Induction on the tokens. The two runs differ in the segments below the lowest level only, and
  -- the run alone has to end there, since it leaves no bracket open.
  induction tokens generalizing level outer level' outer' with
  | nil =>
    cases h with
    | lowest =>
      cases hnest
      exact ⟨level, rfl, fun _ => rfl⟩
    | inside => cases hnest
  | cons t tokens ih =>
    cases t with
    | opening b => exact ih (h.inside b .start) hnest
    | closing b =>
      cases h with
      | lowest => cases hnest
      | inside h opened =>
        rw [nestFrom] at hnest
        by_cases hopened : opened = b
        · rw [if_pos hopened] at hnest
          obtain ⟨final, hfinal, hrun⟩ := ih (h.push _) hnest
          refine ⟨final, hfinal, fun rest => ?_⟩
          rw [List.cons_append, nestFrom, if_pos hopened, hrun]
        · rw [if_neg hopened] at hnest
          cases hnest
    | comma => exact ih h.comma hnest
    | _ => exact ih (h.push _) hnest

/-- Tokens that nest alone add their segments to those before them. -/
theorem nestFrom_after (ended : List (List Item)) (below : List (Bracket × Level))
    (hnest : nest tokens = .ok g) :
    ∃ final : Level, final.close = g ∧ ∀ rest,
      nestFrom (Level.start.after ended) below (tokens ++ rest) =
        nestFrom (final.after ended) below rest :=
  nestFrom_within (.lowest .start) hnest

/-- Tokens that nest alone are the contents of the brackets that they are put in. -/
theorem nestFrom_bracket (hnest : nest tokens = .ok g) (b : Bracket) (level : Level)
    (rest : List Token) :
    nestFrom level below (.opening b :: (tokens ++ .closing b :: rest)) =
      nestFrom (level.push (bracketItems b g)) below rest := by
  obtain ⟨final, rfl, hrun⟩ := nestFrom_after [] ((b, level) :: below) hnest
  show nestFrom (Level.start.after []) ((b, level) :: below) _ = _
  rw [hrun, nestFrom, if_pos rfl]
  rfl

/-- Tokens that nest alone are an operand when they stand in round brackets. -/
theorem nestFrom_round (hnest : nest tokens = .ok g) (level : Level) (rest : List Token) :
    nestFrom level below (.opening .round :: (tokens ++ .closing .round :: rest)) =
      nestFrom (level.push [.expr g.toExpr]) below rest :=
  nestFrom_bracket hnest .round level rest

/-- Segments go on behind a comma. -/
theorem nest_comma {tokens' : List Token} {g' : Group} (hnest : nest tokens = .ok g)
    (hnest' : nest tokens' = .ok g') :
    nest (tokens ++ .comma :: tokens') = .ok ⟨g.first, g.more ++ g'.segments⟩ := by
  obtain ⟨final, rfl, hrun⟩ := nestFrom_after [] [] hnest
  obtain ⟨final', rfl, hrun'⟩ := nestFrom_after final.close.segments [] hnest'
  calc nestFrom .start [] (tokens ++ .comma :: tokens')
      = nestFrom final [] (.comma :: tokens') := hrun _
    _ = nestFrom (Level.start.after final.close.segments) [] (tokens' ++ []) := by
        rw [nestFrom, Level.comma_eq, List.append_nil]
    _ = nestFrom (final'.after final.close.segments) [] [] := hrun' []
    _ = .ok (final'.after final.close.segments).close := rfl
    _ = .ok ⟨final.close.first, final.close.more ++ final'.close.segments⟩ := by
        rw [Level.close_after]

end Nesting

/-! ### Scanning and nesting -/

open Scan in
/-- The text is scanned and nested to the group. -/
def Reads (cs : List Char) (g : Group) : Prop :=
  ∃ tokens, scan false cs = ⟨tokens, none⟩ ∧ nest tokens = .ok g

namespace Reads

open Scan Nesting

variable {cs cs' : List Char} {tokens : List Token} {g g' : Group}

/-- A text in brackets is scanned as it is alone: the closing bracket ends its last token. -/
theorem scan_bracket (h : scan false cs = ⟨tokens, none⟩) (b : Bracket) (afterValue : Bool)
    (behind : List Char) :
    scan afterValue (b.opener :: (cs ++ b.closer :: behind)) =
      ⟨.opening b :: (tokens ++ .closing b :: (scan true behind).tokens),
        (scan true behind).error?⟩ := by
  have hopening : next afterValue (b.opener :: (cs ++ b.closer :: behind)) =
      .token (.opening b) (cs ++ b.closer :: behind) := by
    cases b <;> rfl
  have hclosing : next (endsValueAfter false tokens) (b.closer :: behind) =
      .token (.closing b) behind := by
    cases b <;> rfl
  have hends : Ends (b.closer :: behind) := ends_cons_iff.mpr (by cases b <;> decide)
  rw [scan_of_token hopening]
  show Tokens.mk (_ :: (scan false (cs ++ b.closer :: behind)).tokens)
    (scan false (cs ++ b.closer :: behind)).error? = _
  rw [scan_append hends h, scan_of_token hclosing]
  rfl

theorem scan_round (h : scan false cs = ⟨tokens, none⟩) (afterValue : Bool) (behind : List Char) :
    scan afterValue ('(' :: (cs ++ ')' :: behind)) =
      ⟨.opening .round :: (tokens ++ .closing .round :: (scan true behind).tokens),
        (scan true behind).error?⟩ :=
  scan_bracket h .round afterValue behind

/-- The symbol of an operator, between spaces, is that operator. -/
theorem scan_symbol (op : Operator) (behind : List Char) :
    scan true (' ' :: (op.symbol.toList ++ ' ' :: behind)) =
      ⟨.operator op :: (scan false behind).tokens, (scan false behind).error?⟩ := by
  have hnext : next true (' ' :: (op.symbol.toList ++ ' ' :: behind)) =
      .token (.operator op) (' ' :: behind) := by
    cases op <;> rfl
  rw [scan_of_token hnext, scan_space]
  rfl

/-- A name is scanned whole. -/
theorem scan_name {f : String} (hf : isName f = true) (afterValue : Bool) {behind : List Char}
    (hends : Ends behind) :
    scan afterValue (f.toList ++ behind) =
      ⟨.name f :: (scan true behind).tokens, (scan true behind).error?⟩ := by
  obtain ⟨hnonempty, hletters⟩ : f.isEmpty = false ∧ ∀ c ∈ f.toList, Text.isAlphabetic c = true := by
    simpa [isName] using hf
  have htake : (f.toList ++ behind).takeWhile Text.isAlphabetic = f.toList := by
    rw [List.takeWhile_append_of_pos hletters, hends.takeWhile continues_isAlphabetic,
      List.append_nil]
  have hdrop : (f.toList ++ behind).dropWhile Text.isAlphabetic = behind := by
    rw [List.dropWhile_append_of_pos hletters, hends.dropWhile continues_isAlphabetic]
  have hnext : next afterValue (f.toList ++ behind) = .token (.name f) behind := by
    cases hf : f.toList with
    | nil => simp_all
    | cons c cs =>
      have hc : Text.isAlphabetic c = true := hletters c (by rw [hf]; exact List.mem_cons_self)
      rw [hf] at htake hdrop
      rw [List.cons_append, next_of_ne_space (begins_no_sign (.inl hc)).1, tokenAt_of_isAlphabetic hc,
        ← List.cons_append, htake, hdrop, ← hf, String.ofList_toList]
  rw [scan_of_token hnext]
  rfl

theorem name {f : String} (hf : isName f = true) : Reads f.toList ⟨[.expr (.name f)], []⟩ := by
  refine ⟨[.name f], ?_, rfl⟩
  have hscan := scan_name hf false ends_nil
  rw [List.append_nil, scan_nil] at hscan
  exact hscan

/-- Round brackets make one item of what stands between them. -/
theorem round (h : Reads cs g) : Reads ('(' :: (cs ++ [')'])) ⟨[.expr g.toExpr], []⟩ := by
  obtain ⟨tokens, hscan, hnest⟩ := h
  refine ⟨.opening .round :: (tokens ++ [Token.closing .round]), ?_, ?_⟩
  · rw [scan_round hscan, scan_nil]
  · show nestFrom .start [] _ = _
    rw [nestFrom_round hnest]
    rfl

/-- Two sources in brackets with an operator between them are read as three items. -/
theorem operation (h : Reads cs g) (h' : Reads cs' g') (op : Operator) :
    Reads ('(' :: (cs ++ ')' :: ' ' :: (op.symbol.toList ++ ' ' :: '(' :: (cs' ++ [')']))))
      ⟨[.expr g.toExpr, .operator op, .expr g'.toExpr], []⟩ := by
  obtain ⟨tokens, hscan, hnest⟩ := h
  obtain ⟨tokens', hscan', hnest'⟩ := h'
  refine ⟨.opening .round :: (tokens ++ Token.closing .round :: .operator op :: .opening .round ::
    (tokens' ++ [Token.closing .round])), ?_, ?_⟩
  · rw [scan_round hscan, scan_symbol, scan_round hscan', scan_nil]
  · show nestFrom .start [] _ = _
    rw [nestFrom_round hnest, nestFrom, nestFrom_round hnest']
    rfl

/-- Sources with a comma between them are read as one group, the segments of the first before those
of the second. -/
theorem comma (h : Reads cs g) (h' : Reads cs' g') :
    Reads (cs ++ ',' :: ' ' :: cs') ⟨g.first, g.more ++ g'.segments⟩ := by
  obtain ⟨tokens, hscan, hnest⟩ := h
  obtain ⟨tokens', hscan', hnest'⟩ := h'
  refine ⟨tokens ++ .comma :: tokens', ?_, nest_comma hnest hnest'⟩
  have hends : Ends (',' :: ' ' :: cs') := ends_cons_iff.mpr (by decide)
  have hcomma : next (endsValueAfter false tokens) (',' :: ' ' :: cs') =
      .token .comma (' ' :: cs') := rfl
  rw [scan_append hends hscan, scan_of_token hcomma, scan_space]
  show Tokens.mk (tokens ++ .comma :: (scan false cs').tokens) (scan false cs').error? = _
  rw [hscan']

/-- A name before a source in brackets is read as two items, which folding makes a call of. -/
theorem call {f : String} (hf : isName f = true) (h : Reads cs g) :
    Reads (f.toList ++ '(' :: (cs ++ [')'])) ⟨[.expr (.name f), .expr g.toExpr], []⟩ := by
  obtain ⟨tokens, hscan, hnest⟩ := h
  refine ⟨.name f :: .opening .round :: (tokens ++ [Token.closing .round]), ?_, ?_⟩
  · rw [scan_name hf false (ends_cons_iff.mpr (by decide)), scan_round hscan, scan_nil]
  · show nestFrom .start [] _ = _
    rw [nestFrom, nestFrom_round hnest]
    rfl

/-- A name before a text in square brackets. -/
theorem index {x : String} (hx : isName x = true) (h : Reads cs g) :
    Reads (x.toList ++ '[' :: (cs ++ [']']))
      ⟨[.expr (.name x), .dot, .expr (.name indexFunction), .expr g.toExpr], []⟩ := by
  obtain ⟨tokens, hscan, hnest⟩ := h
  refine ⟨.name x :: .opening .square :: (tokens ++ [Token.closing .square]), ?_, ?_⟩
  · have hbracket : scan true ('[' :: (cs ++ [']'])) =
        ⟨.opening .square :: (tokens ++ .closing .square :: (scan true []).tokens),
          (scan true []).error?⟩ := scan_bracket hscan .square true []
    rw [scan_name hx false (ends_cons_iff.mpr (by decide)), hbracket, scan_nil]
  · show nestFrom .start [] _ = _
    rw [nestFrom, nestFrom_bracket hnest]
    rfl

end Reads

/-! ### Folding -/

namespace Folding

/-- Folding makes the expression of the segment. -/
def Folds (segment : List Item) (e : Expr) : Prop :=
  (resolveItems segment >>= foldSegment) = .ok [.expr e]

/-- Folding makes an expression of every segment. -/
def FoldsAll (segments : List (List Item)) (es : List Expr) : Prop :=
  resolveSegments segments = .ok (es.map fun e => [.expr e])

variable {first segment : List Item} {more : List (List Item)} {e e' : Expr} {es : List Expr}

theorem foldsAll_nil : FoldsAll [] [] := by
  unfold FoldsAll
  rw [resolveSegments]
  rfl

theorem foldsAll_cons (h : Folds segment e) (hmore : FoldsAll more es) :
    FoldsAll (segment :: more) (e :: es) := by
  obtain ⟨items, hitems, hfold⟩ := bind_eq_ok h
  unfold FoldsAll
  rw [resolveSegments, hitems]
  show (foldSegment items >>= _) = _
  rw [hfold, hmore]
  rfl

/-- A segment without groups is folded as it stands. -/
theorem resolveItems_of_no_group {items : List Item}
    (h : ∀ first more, .expr (.group first more) ∉ items) : resolveItems items = .ok items := by
  induction items with
  | nil => rw [resolveItems]
  | cons item items ih =>
    have hrest := ih fun first more hmem => h first more (List.mem_cons_of_mem _ hmem)
    rw [resolveItems, hrest]
    · rfl
    · intro first more heq
      exact h first more (heq ▸ List.mem_cons_self)

/-- A group has its segments folded where it stands. -/
theorem resolveItems_group {rest rest' : List Item} (hfirst : Folds first e)
    (hmore : FoldsAll more es) (hrest : resolveItems rest = .ok rest') :
    resolveItems (.expr (.group first more) :: rest) =
      .ok (.expr (.group [.expr e] (es.map fun e => [.expr e])) :: rest') := by
  obtain ⟨items, hitems, hfold⟩ := bind_eq_ok hfirst
  rw [resolveItems, hitems]
  show (foldSegment items >>= _) = _
  rw [hfold, hmore, hrest]
  rfl

theorem resolveItems_last (hfirst : Folds first e) (hmore : FoldsAll more es) :
    resolveItems [.expr (.group first more)] =
      .ok [.expr (.group [.expr e] (es.map fun e => [.expr e]))] := by
  refine resolveItems_group hfirst hmore ?_
  rw [resolveItems]

/-- Brackets around a segment that folds are folded to a group of one item. -/
theorem folds_round (h : Folds segment e) :
    Folds [.expr (.group segment [])] (.group [.expr e] []) := by
  unfold Folds
  rw [resolveItems_last h foldsAll_nil]
  rfl

/-- Two groups that fold and an operator between them fold to the operation on the groups. -/
theorem folds_operation (h : Folds first e) (h' : Folds segment e') (op : Operator) :
    Folds [.expr (.group first []), .operator op, .expr (.group segment [])]
      (.operation op (.group [.expr e] []) (.group [.expr e'] [])) := by
  have hrest : resolveItems [.operator op, .expr (.group segment [])] =
      .ok [.operator op, .expr (.group [.expr e'] [])] := by
    rw [resolveItems, resolveItems_last h' foldsAll_nil]
    · rfl
    · intro _ _ h
      cases h
  unfold Folds
  rw [resolveItems_group h foldsAll_nil hrest]
  cases op <;> rfl

/-- Every segment in the brackets of a call is an argument, in brackets of its own. -/
theorem arguments_segments (e : Expr) (es : List Expr) :
    arguments [.expr e] (es.map fun e => [.expr e]) = (e :: es).map fun e => .group [.expr e] [] := by
  show (([.expr e] :: es.map fun e => [Item.expr e]).map fun segment => Expr.group segment []) = _
  rw [List.map_cons, List.map_map]
  rfl

/-- The segments behind a name are the arguments of a call. -/
theorem folds_call (f : String) (hfirst : Folds first e) (hmore : FoldsAll more es) :
    Folds [.expr (.name f), .expr (.group first more)]
      (.call f ((e :: es).map fun e => .group [.expr e] [])) := by
  have hitems : resolveItems [.expr (.name f), .expr (.group first more)] =
      .ok [.expr (.name f), .expr (.group [.expr e] (es.map fun e => [.expr e]))] := by
    rw [resolveItems, resolveItems_last hfirst hmore]
    · rfl
    · intro _ _ h
      cases h
  unfold Folds
  rw [hitems, ← arguments_segments]
  rfl

/-- The segments in the brackets of an index are the arguments behind the value that is indexed. -/
theorem folds_index (x : String) (hfirst : Folds first e) (hmore : FoldsAll more es) :
    Folds [.expr (.name x), .dot, .expr (.name indexFunction), .expr (.group first more)]
      (.call indexFunction (.name x :: (e :: es).map fun e => .group [.expr e] [])) := by
  have hitems : resolveItems
      [.expr (.name x), .dot, .expr (.name indexFunction), .expr (.group first more)] =
      .ok [.expr (.name x), .dot, .expr (.name indexFunction),
        .expr (.group [.expr e] (es.map fun e => [.expr e]))] := by
    rw [resolveItems, resolveItems, resolveItems, resolveItems_last hfirst hmore]
    · rfl
    all_goals
      intro _ _ h
      cases h
  unfold Folds
  rw [hitems, ← arguments_segments]
  rfl

end Folding

/-! ### Trees -/

open Folding

variable {source source' : String} {e e' : Expr}

/-- A group is an expression iff it has one segment with one item. -/
theorem expression_eq_ok_iff {g : Group} : g.expression = .ok e ↔ g = ⟨[.expr e], []⟩ := by
  constructor
  · intro h
    unfold Group.expression at h
    split at h
    · cases h
      obtain ⟨first, more⟩ := g
      simp_all
    · cases h
    · cases h
  · rintro rfl
    rfl

/-- Folding drops no segment. -/
theorem resolveSegments_eq_nil {more : List (List Item)} (h : resolveSegments more = .ok []) :
    more = [] := by
  cases more with
  | nil => rfl
  | cons segment more =>
    rw [resolveSegments] at h
    obtain ⟨_, _, h⟩ := bind_eq_ok h
    obtain ⟨_, _, h⟩ := bind_eq_ok h
    obtain ⟨_, _, h⟩ := bind_eq_ok h
    cases h

/-- A group is folded to one expression iff its only segment is. -/
theorem resolve_eq_ok_iff {g : Group} :
    g.resolve = .ok ⟨[.expr e], []⟩ ↔ Folds g.first e ∧ g.more = [] := by
  constructor
  · intro h
    obtain ⟨items, hitems, h⟩ := bind_eq_ok h
    obtain ⟨first, hfirst, h⟩ := bind_eq_ok h
    obtain ⟨more, hmore, h⟩ := bind_eq_ok h
    cases h
    refine ⟨?_, resolveSegments_eq_nil hmore⟩
    unfold Folds
    rw [hitems]
    exact hfirst
  · rintro ⟨hfolds, hmore⟩
    obtain ⟨items, hitems, hfirst⟩ := bind_eq_ok hfolds
    unfold Group.resolve
    rw [hitems]
    show (foldSegment items >>= _) = _
    rw [hfirst, hmore, resolveSegments]
    rfl

/-- A source has a tree if it is read as one segment and this is folded to the tree. -/
theorem parse_iff :
    parse source = .ok e ↔ ∃ items, Reads source.toList ⟨items, []⟩ ∧ Folds items e := by
  constructor
  · intro h
    obtain ⟨tokens, htokens, h⟩ := bind_eq_ok h
    obtain ⟨g, hnest, h⟩ := bind_eq_ok h
    obtain ⟨resolved, hresolve, h⟩ := bind_eq_ok h
    rw [expression_eq_ok_iff.mp h] at hresolve
    obtain ⟨hfolds, hmore⟩ := resolve_eq_ok_iff.mp hresolve
    refine ⟨g.first, ⟨tokens, tokenize_eq_ok_iff.mp htokens, ?_⟩, hfolds⟩
    rw [hnest, ← hmore]
  · rintro ⟨items, ⟨tokens, hscan, hnest⟩, hfolds⟩
    have hresolve : Group.resolve ⟨items, []⟩ = .ok ⟨[.expr e], []⟩ :=
      resolve_eq_ok_iff.mpr ⟨hfolds, rfl⟩
    unfold parse
    rw [tokenize_eq_ok_iff.mpr hscan]
    show (nest tokens >>= _) = _
    rw [hnest]
    show (Group.resolve ⟨items, []⟩ >>= _) = _
    rw [hresolve]
    rfl

/-- A name is its own tree. -/
theorem parse_name {f : String} (hf : isName f = true) : parse f = .ok (.name f) := by
  refine parse_iff.mpr ⟨_, Reads.name hf, ?_⟩
  unfold Folds
  rw [resolveItems_of_no_group (by simp)]
  rfl

/-- A source in brackets. -/
theorem parse_round (h : parse source = .ok e) :
    parse ("(" ++ source ++ ")") = .ok (.group [.expr e] []) := by
  obtain ⟨items, hreads, hfolds⟩ := parse_iff.mp h
  refine parse_iff.mpr ⟨_, ?_, folds_round hfolds⟩
  have htext : ("(" ++ source ++ ")").toList = '(' :: (source.toList ++ [')']) := by
    simp
  rw [htext]
  exact hreads.round

/-- Two sources in brackets with an operator between them. -/
theorem parse_operation (h : parse source = .ok e) (h' : parse source' = .ok e') (op : Operator) :
    parse ("(" ++ source ++ ") " ++ op.symbol ++ " (" ++ source' ++ ")") =
      .ok (.operation op (.group [.expr e] []) (.group [.expr e'] [])) := by
  obtain ⟨items, hreads, hfolds⟩ := parse_iff.mp h
  obtain ⟨items', hreads', hfolds'⟩ := parse_iff.mp h'
  refine parse_iff.mpr ⟨_, ?_, folds_operation hfolds hfolds' op⟩
  have htext : ("(" ++ source ++ ") " ++ op.symbol ++ " (" ++ source' ++ ")").toList =
      '(' :: (source.toList ++ ')' :: ' ' :: (op.symbol.toList ++
        ' ' :: '(' :: (source'.toList ++ [')']))) := by
    simp
  rw [htext]
  exact hreads.operation hreads' op

/-- Sources with commas between them are read as the segments of one group. -/
theorem exists_segments {sources : List String} {es : List Expr} (h : parse source = .ok e)
    (hmore : sources.map parse = es.map .ok) :
    ∃ first more, Reads (", ".intercalate (source :: sources)).toList ⟨first, more⟩ ∧
      Folds first e ∧ FoldsAll more es := by
  obtain ⟨items, hreads, hfolds⟩ := parse_iff.mp h
  -- Induction on the sources; each one adds a comma and a segment.
  induction sources generalizing source e es items with
  | nil =>
    cases List.map_eq_nil_iff.mp hmore.symm
    refine ⟨items, [], ?_, hfolds, foldsAll_nil⟩
    rw [String.intercalate_singleton]
    exact hreads
  | cons source' sources ih =>
    obtain ⟨e', es, rfl, h', hmore⟩ := List.map_eq_cons_iff.mp hmore.symm
    obtain ⟨items', hreads', hfolds'⟩ := parse_iff.mp h'.symm
    obtain ⟨first, more, hrest, hfirst, hmore⟩ := ih h'.symm hmore.symm items' hreads' hfolds'
    refine ⟨items, first :: more, ?_, hfolds, foldsAll_cons hfirst hmore⟩
    have htext : (", ".intercalate (source :: source' :: sources)).toList =
        source.toList ++ ',' :: ' ' :: (", ".intercalate (source' :: sources)).toList := by
      rw [String.intercalate_cons_cons]
      simp
    rw [htext]
    exact hreads.comma hrest

/-- A name before sources in brackets. -/
theorem parse_call {f : String} {sources : List String} {es : List Expr} (hf : isName f = true)
    (hsources : sources ≠ []) (h : sources.map parse = es.map .ok) :
    parse (f ++ "(" ++ ", ".intercalate sources ++ ")") =
      .ok (.call f (es.map fun e => .group [.expr e] [])) := by
  obtain ⟨source, sources, rfl⟩ := List.exists_cons_of_ne_nil hsources
  obtain ⟨e, es, rfl, he, hmore⟩ := List.map_eq_cons_iff.mp h.symm
  obtain ⟨first, more, hreads, hfirst, hmore⟩ := exists_segments he.symm hmore.symm
  refine parse_iff.mpr ⟨_, ?_, folds_call f hfirst hmore⟩
  have htext : (f ++ "(" ++ ", ".intercalate (source :: sources) ++ ")").toList =
      f.toList ++ '(' :: ((", ".intercalate (source :: sources)).toList ++ [')']) := by
    simp
  rw [htext]
  exact hreads.call hf

/-- A name before a source in square brackets. -/
theorem parse_index {x : String} (hx : isName x = true) (h : parse source = .ok e) :
    parse (x ++ "[" ++ source ++ "]") =
      .ok (.call indexFunction [.name x, .group [.expr e] []]) := by
  obtain ⟨items, hreads, hfolds⟩ := parse_iff.mp h
  refine parse_iff.mpr ⟨_, ?_, folds_index x hfolds foldsAll_nil⟩
  have htext : (x ++ "[" ++ source ++ "]").toList = x.toList ++ '[' :: (source.toList ++ [']']) := by
    simp
  rw [htext]
  exact hreads.index hx

end PixelCalc
