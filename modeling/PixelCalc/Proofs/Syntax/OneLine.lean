import PixelCalc.Proofs.Sequencing
import PixelCalc.Proofs.Syntax.Derivation
import PixelCalc.Proofs.Syntax.Resolution
import PixelCalc.Proofs.Syntax.Word
import PixelCalc.Proofs.Text.OneLine

/-!
# Reading a source of one line

The text of a tree is one line exactly if the names in it are. Names are made of letters, so all
trees that come up while a source is read have such texts. A syntax error quotes trees, and at most
one character of the source, so its message is one line if the source is.

- `LineItems`: the texts of items are one line.
- `oneLine_group_iff`, `oneLine_operation_iff`, `oneLine_call_iff`: the texts of trees.
- `SyntaxError.quoted`: what an error quotes; `SyntaxError.oneLine_message` says that nothing else
  in its message can break the line.
- `yields_parse`: the tree or the error that a source is read to.
-/

namespace PixelCalc

open Text

/-! ### Texts of trees -/

/-- Neither the symbol of an operator nor its name in messages breaks a line. -/
@[simp] theorem Operator.oneLine_symbol (op : Operator) : OneLine op.symbol.toList := by
  cases op <;> simp [symbol]

@[simp] theorem Operator.oneLine_label (op : Operator) : OneLine op.label.toList := by
  unfold label
  split
  · simp
  · simp
  · exact op.oneLine_symbol

theorem Item.oneLine_dot : OneLine Item.dot.text.toList :=
  oneLine_literal _ rfl

/-- The texts of the items are one line. -/
def LineItems (items : List Item) : Prop :=
  ∀ item ∈ items, OneLine item.text.toList

/-- The texts of the items of all segments are one line. -/
def LineSegments (segments : List (List Item)) : Prop :=
  ∀ segment ∈ segments, LineItems segment

theorem LineSegments.nil : LineSegments [] :=
  fun _ h => absurd h List.not_mem_nil

variable {item : Item} {items first passed rest : List Item} {more segments : List (List Item)}
  {e left right : Expr} {args : List Expr} {n : String} {op : Operator}

namespace LineItems

theorem nil : LineItems [] :=
  fun _ h => absurd h List.not_mem_nil

theorem cons_iff : LineItems (item :: items) ↔ OneLine item.text.toList ∧ LineItems items :=
  List.forall_mem_cons

theorem cons (hitem : OneLine item.text.toList) (h : LineItems items) : LineItems (item :: items) :=
  cons_iff.mpr ⟨hitem, h⟩

theorem head (h : LineItems (item :: items)) : OneLine item.text.toList :=
  (cons_iff.mp h).1

theorem tail (h : LineItems (item :: items)) : LineItems items :=
  (cons_iff.mp h).2

theorem reverse (h : LineItems items) : LineItems items.reverse :=
  fun item hitem => h item (List.mem_reverse.mp hitem)

end LineItems

theorem oneLine_itemTexts_iff : (∀ t ∈ itemTexts items, OneLine t.toList) ↔ LineItems items := by
  induction items with
  | nil => simp [itemTexts, LineItems]
  | cons item items ih => rw [itemTexts, List.forall_mem_cons, ih, LineItems.cons_iff]

/-- The text of a segment is one line iff its items are, since only brackets and blanks are added.
-/
theorem oneLine_segment_iff :
    OneLine ("(" ++ " ".intercalate (itemTexts items) ++ ")").toList ↔ LineItems items := by
  simp [oneLine_intercalate_iff, oneLine_itemTexts_iff]

/-- The texts of segments, one by one, are one line exactly where the segments are. -/
theorem oneLine_segmentTexts_iff :
    (∀ t ∈ segmentTexts segments, OneLine t.toList) ↔ LineSegments segments := by
  induction segments with
  | nil => simp [segmentTexts, LineSegments]
  | cons segment segments ih =>
    rw [segmentTexts, List.forall_mem_cons, ih, oneLine_segment_iff, LineSegments,
      LineSegments, List.forall_mem_cons]

/-- The same for the arguments of a call. -/
theorem oneLine_exprTexts_iff :
    (∀ t ∈ exprTexts args, OneLine t.toList) ↔ ∀ a ∈ args, OneLine a.text.toList := by
  induction args with
  | nil => simp [exprTexts]
  | cons a args ih => rw [exprTexts, List.forall_mem_cons, ih, List.forall_mem_cons]

namespace Expr

/-- The text of a group is one line iff all of its segments are. -/
theorem oneLine_group_iff :
    OneLine (group first more).text.toList ↔ LineItems first ∧ LineSegments more := by
  cases more with
  | nil =>
    show OneLine ("(" ++ " ".intercalate (itemTexts first) ++ ")").toList ↔ _
    rw [oneLine_segment_iff, and_iff_left LineSegments.nil]
  | cons second more =>
    show OneLine ("(" ++ " , ".intercalate
      (("(" ++ " ".intercalate (itemTexts first) ++ ")") :: segmentTexts (second :: more)) ++
        ")").toList ↔ _
    simp [oneLine_intercalate_iff, oneLine_segmentTexts_iff, oneLine_itemTexts_iff]

/-- The text of an operation adds the symbol to its operands. -/
theorem oneLine_operation_iff :
    OneLine (operation op left right).text.toList ↔
      OneLine left.text.toList ∧ OneLine right.text.toList := by
  show OneLine ("(" ++ left.text ++ " " ++ op.symbol ++ " " ++ right.text ++ ")").toList ↔ _
  simp

/-- The text of a call adds commas and brackets to its name and arguments. The name is what a source
could break a line with. -/
theorem oneLine_call_iff :
    OneLine (call n args).text.toList ↔
      OneLine n.toList ∧ ∀ a ∈ args, OneLine a.text.toList := by
  show OneLine (n ++ "(" ++ ", ".intercalate (exprTexts args) ++ ")").toList ↔ _
  simp [oneLine_intercalate_iff, oneLine_exprTexts_iff]

theorem oneLine_target_iff : OneLine (target n).text.toList ↔ OneLine n.toList := by
  show OneLine ("VariableRef(" ++ n ++ ")").toList ↔ _
  simp

theorem oneLine_nothing : OneLine nothing.text.toList :=
  oneLine_literal _ rfl

end Expr

/-! ### Syntax errors -/

@[simp] theorem Bracket.opener_ne (b : Bracket) : b.opener ≠ '\n' := by
  cases b <;> decide

@[simp] theorem Bracket.closer_ne (b : Bracket) : b.closer ≠ '\n' := by
  cases b <;> decide

namespace SyntaxError

/-- The texts that an error quotes. -/
def quoted : SyntaxError → List (List Char)
  | unsupported symbol => [symbol.toList]
  | unexpected c => [[c]]
  | notAValueBeforeDot item | invalidLeft _ item | invalidRight _ item => [item.text.toList]
  | _ => []

/-- What an error quotes is one line. -/
def Quiet (e : SyntaxError) : Prop :=
  ∀ t ∈ e.quoted, OneLine t

/-- Most errors quote nothing. -/
theorem quiet_of_quoted {e : SyntaxError} (h : e.quoted = []) : e.Quiet := by
  rw [Quiet, h]
  exact List.forall_mem_nil _

/-- The detail of an error is one line if everything that it quotes from the source is. -/
theorem oneLine_detail {e : SyntaxError} (h : e.Quiet) : OneLine e.detail.toList := by
  cases e <;> unfold detail <;> (try simp_all [Quiet, quoted, -String.reduceToList]) <;>
    and_intros <;> exact oneLine_literal _ rfl

/-- The message puts a fixed heading before the detail. -/
theorem oneLine_message {e : SyntaxError} (h : e.Quiet) : OneLine e.message.toList := by
  show OneLine ("Syntax Error: " ++ e.detail).toList
  rw [String.toList_append, oneLine_append_iff]
  exact ⟨oneLine_literal _ rfl, oneLine_detail h⟩

end SyntaxError

/-! ### Tokens -/

/-- The names among tokens are one line. -/
def LineTokens (tokens : List Token) : Prop :=
  ∀ n, .name n ∈ tokens → OneLine n.toList

namespace Scan

theorem oneLine_letters {word : List Char} (h : ∀ c ∈ word, isAlphabetic c = true) : OneLine word :=
  oneLine_of_all (by decide) h

/-- Names are made of letters, so no name breaks a line, whatever it is read from. -/
theorem lineTokens_scan (afterValue : Bool) (cs : List Char) :
    LineTokens (scan afterValue cs).tokens := by
  rw [scan_eq]
  -- along the recursion of the scan; the only token with a text of its own is a name
  cases hstep : next afterValue cs with
  | done => exact fun _ => nofun
  | stop e => exact fun _ => nofun
  | token t rest =>
    have hlength := next_length hstep
    intro n hn
    rcases List.mem_cons.mp hn with rfl | hn
    · obtain ⟨_, word, -, hword⟩ := next_eq_token_iff.mp hstep
      obtain ⟨-, hletters, -, rfl⟩ := hword.of_name
      rw [String.toList_ofList]
      exact oneLine_letters hletters
    · exact lineTokens_scan t.endsValue rest n hn
termination_by cs.length

/-- The error of a scan quotes a sign of the language or a character of the text. -/
theorem quiet_refusal {c : Char} (hc : c ≠ '\n') (next? : Option Char) :
    (refusal c next?).Quiet := by
  unfold refusal
  split
  · simp [SyntaxError.Quiet, SyntaxError.quoted]
  · split <;> simp [SyntaxError.Quiet, SyntaxError.quoted]
  · split <;> simp [SyntaxError.Quiet, SyntaxError.quoted]
  · simpa [SyntaxError.Quiet, SyntaxError.quoted] using hc

end Scan

/-- A source on one line has one-line tokens, or an error that quotes nothing else. -/
theorem yields_tokenize {source : String} (h : OneLine source.toList) :
    Yields LineTokens SyntaxError.Quiet (tokenize source) := by
  unfold tokenize
  dsimp only
  split
  · exact Scan.lineTokens_scan false source.toList
  · rename_i e he
    obtain ⟨before, c, after, hcs, -, -, rfl⟩ :=
      Scan.refusal?_eq_some_iff.mp ((Scan.scan_error false source.toList).symm.trans he)
    rw [hcs, oneLine_append_iff, oneLine_cons_iff] at h
    exact Scan.quiet_refusal h.2.1 _

/-! ### Groups -/

namespace Nesting

/-- Brackets put one group among the items, or the call that square ones stand for. -/
theorem lineItems_bracketItems (b : Bracket) (h : LineItems first) (hmore : LineSegments more) :
    LineItems (bracketItems b ⟨first, more⟩) := by
  have hgroup : OneLine (Group.toExpr ⟨first, more⟩).text.toList :=
    Expr.oneLine_group_iff.mpr ⟨h, hmore⟩
  cases b with
  | round => exact .cons hgroup .nil
  | square =>
    have hfunction : OneLine (Expr.name indexFunction).text.toList := oneLine_literal _ rfl
    exact .cons Item.oneLine_dot (.cons hfunction (.cons hgroup .nil))

/-- Nesting adds no name but that of the function behind an index. -/
theorem Nests.oneLine {tokens : List Token} (h : Nests first more tokens) (ht : LineTokens tokens) :
    LineItems first ∧ LineSegments more := by
  have htail {t : Token} {tokens : List Token} (ht : LineTokens (t :: tokens)) : LineTokens tokens :=
    fun n hn => ht n (.tail _ hn)
  -- Induction on the derivation of the group. Each token adds an item whose text is known; brackets
  -- add what the derivation of their inside gives.
  induction h with
  | nil => exact ⟨.nil, fun _ hmem => absurd hmem List.not_mem_nil⟩
  | comma _ ih =>
    obtain ⟨hsegment, hmore⟩ := ih (htail ht)
    exact ⟨.nil, List.forall_mem_cons.mpr ⟨hsegment, hmore⟩⟩
  | dot _ ih =>
    obtain ⟨hfirst, hmore⟩ := ih (htail ht)
    exact ⟨.cons Item.oneLine_dot hfirst, hmore⟩
  | operator op _ ih =>
    obtain ⟨hfirst, hmore⟩ := ih (htail ht)
    exact ⟨.cons op.oneLine_symbol hfirst, hmore⟩
  | number x _ ih =>
    obtain ⟨hfirst, hmore⟩ := ih (htail ht)
    exact ⟨.cons (oneLine_plainText x) hfirst, hmore⟩
  | name n _ ih =>
    obtain ⟨hfirst, hmore⟩ := ih (htail ht)
    exact ⟨.cons (ht n List.mem_cons_self) hfirst, hmore⟩
  | brackets b _ _ ihinner ih =>
    obtain ⟨hinner, hinnerMore⟩ := ihinner fun n hn => ht n (.tail _ (List.mem_append_left _ hn))
    obtain ⟨hfirst, hmore⟩ := ih fun n hn => ht n (.tail _ (List.mem_append_right _ (.tail _ hn)))
    refine ⟨fun item hitem => ?_, hmore⟩
    rcases List.mem_append.mp hitem with hitem | hitem
    · exact lineItems_bracketItems b hinner hinnerMore item hitem
    · exact hfirst item hitem

/-- The errors of nesting name brackets and quote nothing. -/
theorem quiet_of_nestFrom {level : Level} {outer : List (Bracket × Level)} {tokens : List Token}
    {e : SyntaxError} (h : nestFrom level outer tokens = .error e) : e.Quiet := by
  fun_induction nestFrom level outer tokens <;>
    first
    | (cases h <;> exact SyntaxError.quiet_of_quoted rfl)
    | (rename_i ih; exact ih h)

end Nesting

/-- The items of a group are one line. -/
def LineGroup (g : Group) : Prop :=
  LineItems g.first ∧ LineSegments g.more

/-- One-line tokens nest to a one-line group. The errors of nesting quote brackets only. -/
theorem yields_nest {tokens : List Token} (h : LineTokens tokens) :
    Yields LineGroup SyntaxError.Quiet (nest tokens) := by
  cases hnest : nest tokens with
  | ok g => exact (Nesting.nest_nests hnest).oneLine h
  | error e => exact Nesting.quiet_of_nestFrom hnest

/-! ### Folding -/

namespace Folding

/-- The arguments of a call are its segments. -/
theorem oneLine_arguments (h : LineItems first) (hmore : LineSegments more) :
    ∀ a ∈ arguments first more, OneLine a.text.toList := by
  intro a ha
  unfold arguments at ha
  split at ha
  · cases ha
  · obtain ⟨segment, hsegment, rfl⟩ := List.mem_map.mp ha
    have hsegments : LineSegments (first :: more) := List.forall_mem_cons.mpr ⟨h, hmore⟩
    exact Expr.oneLine_group_iff.mpr ⟨hsegments segment hsegment, .nil⟩

/-- A group is placed as a call, as a method call or as a value. Each new item is made of one-line
parts, and the item refused before a dot is one of them. -/
theorem yields_placeGroup (h : LineItems first) (hmore : LineSegments more)
    (hpassed : LineItems passed) :
    Yields LineItems SyntaxError.Quiet (placeGroup first more passed) := by
  have harguments := oneLine_arguments h hmore
  unfold placeGroup
  split
  · have hreceiver := hpassed.tail.tail
    exact .cons (Expr.oneLine_call_iff.mpr
      ⟨hpassed.head, List.forall_mem_cons.mpr ⟨hreceiver.head, harguments⟩⟩) hreceiver.tail
  · exact List.forall_mem_singleton.mpr hpassed.tail.tail.head
  · exact SyntaxError.quiet_of_quoted rfl
  · exact .cons (Expr.oneLine_call_iff.mpr ⟨hpassed.head, harguments⟩) hpassed.tail
  · exact .cons (Expr.oneLine_group_iff.mpr ⟨h, hmore⟩) hpassed

/-- The pass that forms calls keeps items on one line. -/
theorem yields_foldCalls (hpassed : LineItems passed) (hitems : LineItems items) :
    Yields LineItems SyntaxError.Quiet (foldCalls passed items) := by
  fun_induction foldCalls passed items with
  | case1 => exact hpassed.reverse
  | case2 passed first more rest passed' hplace ih =>
    obtain ⟨hfirst, hmore⟩ := Expr.oneLine_group_iff.mp hitems.head
    exact ih ((yields_placeGroup hfirst hmore hpassed).of_ok hplace) hitems.tail
  | case3 passed first more rest e hplace =>
    obtain ⟨hfirst, hmore⟩ := Expr.oneLine_group_iff.mp hitems.head
    exact (yields_placeGroup hfirst hmore hpassed).of_error hplace
  | case4 passed item rest _ ih => exact ih (.cons hitems.head hpassed) hitems.tail

/-- A bound that is filled in is a fixed text. -/
theorem oneLine_implicitLeft (h : implicitLeft op = some left) : OneLine left.text.toList := by
  unfold implicitLeft at h
  split at h <;> cases h
  · exact oneLine_plainText 0
  · exact oneLine_plainText 0
  · exact Expr.oneLine_nothing
  · exact Expr.oneLine_nothing

theorem oneLine_implicitRight (h : implicitRight op = some right) : OneLine right.text.toList := by
  unfold implicitRight at h
  split at h <;> cases h
  exact Expr.oneLine_nothing

/-- Also an assignment, whose target is written as the name that it came from. -/
theorem oneLine_operation (hl : OneLine left.text.toList) (hr : OneLine right.text.toList) :
    OneLine (operation op left right).text.toList := by
  unfold operation
  split
  · exact Expr.oneLine_operation_iff.mpr ⟨Expr.oneLine_target_iff.mpr hl, hr⟩
  · exact Expr.oneLine_operation_iff.mpr ⟨hl, hr⟩

/-- The left operand of an operator, if it takes one, and the items before that operand. -/
theorem yields_leftOperand (tier : Tier) (op : Operator) (hpassed : LineItems passed) :
    Yields (fun taken => ∀ left passed', taken = some (left, passed') →
      OneLine left.text.toList ∧ LineItems passed') SyntaxError.Quiet
      (leftOperand tier op passed) := by
  unfold leftOperand
  split
  · split
    · exact fun _ _ => nofun
    · rintro _ _ ⟨⟩
      exact ⟨hpassed.head, hpassed.tail⟩
  · split
    · rename_i hleft
      rintro _ _ ⟨⟩
      exact ⟨oneLine_implicitLeft hleft, hpassed⟩
    · split
      · exact SyntaxError.quiet_of_quoted rfl
      · exact List.forall_mem_singleton.mpr hpassed.head

/-- A pass over a tier keeps items on one line. -/
theorem yields_foldTier (tier : Tier) (hpassed : LineItems passed) (hitems : LineItems items) :
    Yields LineItems SyntaxError.Quiet (foldTier tier passed items) := by
  -- Induction along the pass: in each case the items passed and the items left are one line, and
  -- the operation formed is made of them.
  fun_induction foldTier tier passed items with
  | case1 => exact hpassed.reverse
  | case2 passed op rest _ e hleft => exact (yields_leftOperand tier op hpassed).of_error hleft
  | case3 passed op rest _ _ ih => exact ih (.cons hitems.head hpassed) hitems.tail
  | case4 passed op _ left passed' hleft right rest ih =>
    obtain ⟨hl, hpassed'⟩ := (yields_leftOperand tier op hpassed).of_ok hleft _ _ rfl
    exact ih (.cons (oneLine_operation hl hitems.tail.head) hpassed') hitems.tail.tail
  | case5 passed op _ left passed' hleft right hright =>
    obtain ⟨hl, hpassed'⟩ := (yields_leftOperand tier op hpassed).of_ok hleft _ _ rfl
    have hout : LineItems (.expr (operation op left right) :: passed') :=
      .cons (oneLine_operation hl (oneLine_implicitRight hright)) hpassed'
    exact hout.reverse
  | case6 => exact SyntaxError.quiet_of_quoted rfl
  | case7 passed op _ left passed' hleft item rest _ right hright ih =>
    obtain ⟨hl, hpassed'⟩ := (yields_leftOperand tier op hpassed).of_ok hleft _ _ rfl
    exact ih (.cons (oneLine_operation hl (oneLine_implicitRight hright)) hpassed') hitems.tail
  | case8 => exact List.forall_mem_singleton.mpr hitems.tail.head
  | case9 passed op rest _ ih => exact ih (.cons hitems.head hpassed) hitems.tail
  | case10 passed item rest _ ih => exact ih (.cons hitems.head hpassed) hitems.tail

/-- The passes, one after another. -/
theorem yields_foldTiers (tiers : List Tier) (hitems : LineItems items) :
    Yields LineItems SyntaxError.Quiet (foldTiers tiers items) := by
  induction tiers generalizing items with
  | nil => exact hitems
  | cons tier more ih =>
    have htier := yields_foldTier tier .nil hitems
    rw [foldTiers]
    split
    · rename_i hpass
      exact ih (htier.of_ok hpass)
    · rename_i hpass
      exact htier.of_error hpass

/-- All passes over one segment. -/
theorem yields_foldSegment (hitems : LineItems items) :
    Yields LineItems SyntaxError.Quiet (foldSegment items) := by
  have hcalls := yields_foldCalls .nil hitems
  unfold foldSegment
  split
  · rename_i hfold
    exact yields_foldTiers tiers (hcalls.of_ok hfold)
  · rename_i hfold
    exact hcalls.of_error hfold

/-- An item that is no group waits for the items behind it. -/
theorem yields_resolveItems_cons (hitem : ∀ first more, item ≠ .expr (.group first more))
    (h : OneLine item.text.toList)
    (hrest : Yields LineItems SyntaxError.Quiet (resolveItems rest)) :
    Yields LineItems SyntaxError.Quiet (resolveItems (item :: rest)) := by
  rw [resolveItems]
  · exact hrest.bind fun _ hrest' => .cons h hrest'
  · exact hitem

mutual

/-- Folding at every depth keeps items on one line; by induction over the tree, together with the
segments. -/
theorem yields_resolveItems : ∀ items : List Item, LineItems items →
    Yields LineItems SyntaxError.Quiet (resolveItems items)
  | [], h => by
    rw [resolveItems]
    exact h
  | .expr (.group first more) :: rest, h => by
    obtain ⟨hfirst, hmore⟩ := Expr.oneLine_group_iff.mp h.head
    rw [resolveItems]
    refine (yields_resolveItems first hfirst).bind fun items hitems => ?_
    refine (yields_foldSegment hitems).bind fun first' hfirst' => ?_
    refine (yields_resolveSegments more hmore).bind fun more' hmore' => ?_
    refine (yields_resolveItems rest h.tail).bind fun rest' hrest' => ?_
    exact .cons (Expr.oneLine_group_iff.mpr ⟨hfirst', hmore'⟩) hrest'
  | .expr (.number _) :: rest, h | .expr .nothing :: rest, h | .expr (.name _) :: rest, h
  | .expr (.target _) :: rest, h | .expr (.operation _ _ _) :: rest, h
  | .expr (.call _ _) :: rest, h | .operator _ :: rest, h | .dot :: rest, h =>
    yields_resolveItems_cons (by simp) h.head (yields_resolveItems rest h.tail)

/-- Folding keeps the segments after the first one on one line. -/
theorem yields_resolveSegments : ∀ segments : List (List Item), LineSegments segments →
    Yields LineSegments SyntaxError.Quiet (resolveSegments segments)
  | [], h => by
    rw [resolveSegments]
    exact h
  | segment :: rest, h => by
    obtain ⟨hsegment, hrest⟩ := List.forall_mem_cons.mp h
    rw [resolveSegments]
    refine (yields_resolveItems segment hsegment).bind fun items hitems => ?_
    refine (yields_foldSegment hitems).bind fun segment' hsegment' => ?_
    refine (yields_resolveSegments rest hrest).bind fun rest' hrest' => ?_
    exact List.forall_mem_cons.mpr ⟨hsegment', hrest'⟩

end

end Folding

/-! ### Reading as a whole -/

open Folding

/-- A folded group is one line. -/
theorem yields_resolve {g : Group} (h : LineGroup g) :
    Yields LineGroup SyntaxError.Quiet g.resolve := by
  refine (yields_resolveItems g.first h.1).bind fun items hitems => ?_
  refine (yields_foldSegment hitems).bind fun first hfirst => ?_
  exact (yields_resolveSegments g.more h.2).bind fun more hmore => ⟨hfirst, hmore⟩

/-- The expression of a one-line group is one line, or the error quotes one of its items. -/
theorem yields_expression {g : Group} (h : LineGroup g) :
    Yields (fun e => OneLine e.text.toList) SyntaxError.Quiet g.expression := by
  unfold Group.expression
  split
  · rename_i hfirst _
    exact (hfirst ▸ h.1).head
  · exact SyntaxError.quiet_of_quoted rfl
  · exact SyntaxError.quiet_of_quoted rfl

/-- A source of one line is read to a tree or to an error that quotes nothing but texts of one
line. -/
theorem yields_parse {source : String} (h : OneLine source.toList) :
    Yields (fun e => OneLine e.text.toList) SyntaxError.Quiet (parse source) := by
  refine (yields_tokenize h).bind fun tokens htokens => ?_
  refine (yields_nest htokens).bind fun g hg => ?_
  refine (yields_resolve hg).bind fun resolved hresolved => ?_
  exact yields_expression hresolved

end PixelCalc
