import PixelCalc.Proofs.Syntax.Resolution

/-!
# No operand is lost

Reading a source moves its operands into a tree, but it keeps all of them, in order, and adds only
those that operators supply where they have none. The names that the tree calls are those that stand
before a round bracket, and one for every index.

- `Expr.leaves`, `Expr.calls`: the operands of a tree from left to right, and the names it calls.
- `operands`, `calledNames`: the operands of tokens, and the names that they call.
- `Written`: leaves are the operands of tokens, up to those that operators supply.
- `Retains`: folding makes of items other items without losing any of this. `Pass.retains` says so of
  the operators, and `foldCalls_retains` of the calls, where `joinCalls` puts a name together with
  the brackets that make it one.
- `Nests.carries`: what is folded from the segments of tokens holds the operands of the tokens, and
  `parse_carries` says it of the tree of a source.
- `parse_operands`: the tree of a source holds the operands of its tokens.
-/

namespace PixelCalc

/-! ### Leaves and calls of a tree -/

/-- An operand of a tree that is not made of others. -/
inductive Leaf where
  | number (x : Float)
  /-- A number on the left of `+` or `-`. -/
  | base (x : Float)
  | nothing
  | name (n : String)

/-- The leaves of the left operand of an operator, given those that it has elsewhere. -/
def asLeft (op : Operator) (e : Expr) (leaves : List Leaf) : List Leaf :=
  match op, e with
  | .plus, .number x | .minus, .number x => [.base x]
  | _, _ => leaves

mutual

/-- The leaves of an expression from left to right. -/
def Expr.leaves : Expr → List Leaf
  | .number x => [.number x]
  | .nothing => [.nothing]
  | .name n => [.name n]
  | .target n => [.name n]
  | .group first more => itemLeaves first ++ segmentLeaves more
  | .operation op left right => asLeft op left left.leaves ++ right.leaves
  | .call _ arguments => exprLeaves arguments

/-- The leaves of the items of a segment. -/
def itemLeaves : List Item → List Leaf
  | [] => []
  | .expr e :: rest => e.leaves ++ itemLeaves rest
  | _ :: rest => itemLeaves rest

/-- The leaves of segments. -/
def segmentLeaves : List (List Item) → List Leaf
  | [] => []
  | segment :: rest => itemLeaves segment ++ segmentLeaves rest

/-- The leaves of arguments. -/
def exprLeaves : List Expr → List Leaf
  | [] => []
  | e :: rest => e.leaves ++ exprLeaves rest

end

mutual

/-- The names that are called in an expression. -/
def Expr.calls : Expr → List String
  | .group first more => itemCalls first ++ segmentCalls more
  | .operation _ left right => left.calls ++ right.calls
  | .call n arguments => n :: exprCalls arguments
  | _ => []

/-- The names that are called in the items of a segment. -/
def itemCalls : List Item → List String
  | [] => []
  | .expr e :: rest => e.calls ++ itemCalls rest
  | _ :: rest => itemCalls rest

/-- The names that are called in segments. -/
def segmentCalls : List (List Item) → List String
  | [] => []
  | segment :: rest => itemCalls segment ++ segmentCalls rest

/-- The names that are called in arguments. -/
def exprCalls : List Expr → List String
  | [] => []
  | e :: rest => e.calls ++ exprCalls rest

end

/-! ### Operands of tokens -/

/-- The tokens begin with a round bracket that opens. -/
def opensRound : List Token → Bool
  | .opening .round :: _ => true
  | _ => false

/-- The numbers among tokens, and the names that call nothing. -/
def operands : List Token → List Token
  | [] => []
  | .number x :: rest => .number x :: operands rest
  | .name n :: rest => if opensRound rest then operands rest else .name n :: operands rest
  | _ :: rest => operands rest

/-- The names before round brackets, and one for every index. -/
def calledNames : List Token → List String
  | [] => []
  | .name n :: rest => if opensRound rest then n :: calledNames rest else calledNames rest
  | .opening .square :: rest => indexFunction :: calledNames rest
  | _ :: rest => calledNames rest

/-- The leaves are the operands, but for those that operators supply: nothing at all, or the zero
that a sign adds to or subtracts from. -/
inductive Written : List Leaf → List Token → Prop
  | nil : Written [] []
  | number {leaves : List Leaf} {tokens : List Token} (x : Float) (h : Written leaves tokens) :
      Written (.number x :: leaves) (.number x :: tokens)
  | base {leaves : List Leaf} {tokens : List Token} (x : Float) (h : Written leaves tokens) :
      Written (.base x :: leaves) (.number x :: tokens)
  | name {leaves : List Leaf} {tokens : List Token} (n : String) (h : Written leaves tokens) :
      Written (.name n :: leaves) (.name n :: tokens)
  | zero {leaves : List Leaf} {tokens : List Token} (h : Written leaves tokens) :
      Written (.base 0 :: leaves) tokens
  | nothing {leaves : List Leaf} {tokens : List Token} (h : Written leaves tokens) :
      Written (.nothing :: leaves) tokens

/-- The expression holds the operands of the tokens, in order, and the names that they call. -/
structure Carries (e : Expr) (tokens : List Token) : Prop where
  leaves : Written e.leaves (operands tokens)
  calls : e.calls.Perm (calledNames tokens)

namespace Written

variable {leaves leaves' : List Leaf} {tokens tokens' : List Token}

/-- What is written by parts is written as a whole. -/
theorem append (h : Written leaves tokens) (h' : Written leaves' tokens') :
    Written (leaves ++ leaves') (tokens ++ tokens') := by
  induction h with
  | nil => exact h'
  | number x _ ih => exact .number x ih
  | base x _ ih => exact .base x ih
  | name n _ ih => exact .name n ih
  | zero _ ih => exact .zero ih
  | nothing _ ih => exact .nothing ih

/-- Leaves in two parts are written by two parts of the tokens. Supplied leaves are written by none,
so the parts need not be unique. -/
theorem of_append (h : Written (leaves ++ leaves') tokens) :
    ∃ front behind, tokens = front ++ behind ∧ Written leaves front ∧ Written leaves' behind := by
  -- Induction on the first part, with a case for each way to write its first leaf.
  induction leaves generalizing tokens with
  | nil => exact ⟨[], tokens, rfl, .nil, h⟩
  | cons leaf leaves ih =>
    cases h with
    | number x h =>
      obtain ⟨front, behind, rfl, hfront, hbehind⟩ := ih h
      exact ⟨_ :: front, behind, rfl, .number x hfront, hbehind⟩
    | base x h =>
      obtain ⟨front, behind, rfl, hfront, hbehind⟩ := ih h
      exact ⟨_ :: front, behind, rfl, .base x hfront, hbehind⟩
    | name n h =>
      obtain ⟨front, behind, rfl, hfront, hbehind⟩ := ih h
      exact ⟨_ :: front, behind, rfl, .name n hfront, hbehind⟩
    | zero h =>
      obtain ⟨front, behind, rfl, hfront, hbehind⟩ := ih h
      exact ⟨front, behind, rfl, .zero hfront, hbehind⟩
    | nothing h =>
      obtain ⟨front, behind, rfl, hfront, hbehind⟩ := ih h
      exact ⟨front, behind, rfl, .nothing hfront, hbehind⟩

end Written

/-- Items one after the other have their leaves one after the other. -/
@[simp] theorem itemLeaves_append (items items' : List Item) :
    itemLeaves (items ++ items') = itemLeaves items ++ itemLeaves items' := by
  induction items with
  | nil => rfl
  | cons item items ih => cases item <;> simp [itemLeaves, ih]

/-- The same for the names that they call. -/
@[simp] theorem itemCalls_append (items items' : List Item) :
    itemCalls (items ++ items') = itemCalls items ++ itemCalls items' := by
  induction items with
  | nil => rfl
  | cons item items ih => cases item <;> simp [itemCalls, ih]

/-! ### Retaining operands -/

/-- `out` holds the operands and the calls of `items`. -/
structure Retains (items out : List Item) : Prop where
  leaves : ∀ tokens, Written (itemLeaves items) tokens → Written (itemLeaves out) tokens
  calls : (itemCalls items).Perm (itemCalls out)

namespace Retains

variable {items items' items'' out out' : List Item}

theorem refl (items : List Item) : Retains items items :=
  ⟨fun _ h => h, .refl _⟩

/-- What is retained step by step is retained. -/
theorem trans (h : Retains items items') (h' : Retains items' items'') : Retains items items'' :=
  ⟨fun _ hw => h'.leaves _ (h.leaves _ hw), h.calls.trans h'.calls⟩

/-- Both sides of a cut may be folded on their own. -/
theorem append (h : Retains items out) (h' : Retains items' out') :
    Retains (items ++ items') (out ++ out') := by
  refine ⟨fun tokens hw => ?_, ?_⟩
  · rw [itemLeaves_append] at hw ⊢
    obtain ⟨front, behind, rfl, hfront, hbehind⟩ := hw.of_append
    exact (h.leaves _ hfront).append (h'.leaves _ hbehind)
  · rw [itemCalls_append, itemCalls_append]
    exact h.calls.append h'.calls

theorem append_left (front : List Item) (h : Retains items out) :
    Retains (front ++ items) (front ++ out) :=
  (refl front).append h

end Retains

namespace Folding

variable {tier : Tier} {op : Operator} {left right : Expr}
  {passed passed' rest rest' items out : List Item}

/-! ### Operators -/

@[simp] theorem leaves_operation (op : Operator) (left right : Expr) :
    (operation op left right).leaves = asLeft op left left.leaves ++ right.leaves := by
  unfold operation
  split <;> rfl

/-- The names called in an operation are those called in its operands; an assignment to a name calls
none on its left. -/
@[simp] theorem calls_operation (op : Operator) (left right : Expr) :
    (operation op left right).calls = left.calls ++ right.calls := by
  unfold operation
  split <;> rfl

/-- A number may stand on the left of a sign as it may elsewhere. -/
theorem written_asLeft {tokens : List Token} (op : Operator) (h : Written left.leaves tokens) :
    Written (asLeft op left left.leaves) tokens := by
  unfold asLeft
  split
  · cases h with
    | number _ h => exact .base _ h
  · cases h with
    | number _ h => exact .base _ h
  · exact h

/-- A left operand that no token stands for is one that the operator supplies. -/
theorem written_implicitLeft (h : implicitLeft op = some left) :
    Written (asLeft op left left.leaves) [] := by
  cases op <;> cases h
  · exact .zero .nil
  · exact .zero .nil
  · exact .nothing .nil
  · exact .nothing .nil

theorem written_implicitRight (h : implicitRight op = some right) : Written right.leaves [] := by
  cases op <;> cases h
  exact .nothing .nil

/-- A bound that is filled in calls nothing. -/
theorem calls_implicitLeft (h : implicitLeft op = some left) : left.calls = [] := by
  cases op <;> cases h <;> rfl

theorem calls_implicitRight (h : implicitRight op = some right) : right.calls = [] := by
  cases op <;> cases h
  rfl

/-- The left operand is taken off the end of what has been passed. -/
theorem TakesLeft.written {tokens : List Token} (h : TakesLeft tier op passed left passed')
    (hw : Written (itemLeaves passed.reverse) tokens) :
    Written (itemLeaves passed'.reverse ++ asLeft op left left.leaves) tokens := by
  cases h with
  | operand =>
    rw [List.reverse_cons, itemLeaves_append] at hw
    obtain ⟨front, behind, rfl, hfront, hbehind⟩ := hw.of_append
    rw [itemLeaves, itemLeaves, List.append_nil] at hbehind
    exact hfront.append (written_asLeft op hbehind)
  | implicit _ hleft => simpa using hw.append (written_implicitLeft hleft)

/-- The right operand is taken off the front of what follows. -/
theorem TakesRight.written {tokens : List Token} (h : TakesRight op rest right rest')
    (hw : Written (itemLeaves rest) tokens) :
    Written (right.leaves ++ itemLeaves rest') tokens := by
  cases h with
  | operand => exact hw
  | implicit _ hright => exact (written_implicitRight hright).append hw

/-- The names called in the left operand are those called in what was taken from the items passed.
-/
theorem TakesLeft.calls (h : TakesLeft tier op passed left passed') :
    itemCalls passed.reverse = itemCalls passed'.reverse ++ left.calls := by
  cases h with
  | operand => simp [itemCalls]
  | implicit _ hleft => simp [calls_implicitLeft hleft]

/-- The same for the right operand and the items ahead. -/
theorem TakesRight.calls (h : TakesRight op rest right rest') :
    itemCalls rest = right.calls ++ itemCalls rest' := by
  cases h with
  | operand => rfl
  | implicit _ hright => simp [calls_implicitRight hright]

/-- An operation holds the operands that its operator has taken. -/
theorem retains_operation (hleft : TakesLeft tier op passed left passed')
    (hright : TakesRight op rest right rest') :
    Retains (passed.reverse ++ .operator op :: rest)
      ((.expr (operation op left right) :: passed').reverse ++ rest') := by
  constructor
  · intro tokens hw
    rw [itemLeaves_append] at hw
    obtain ⟨front, behind, rfl, hfront, hbehind⟩ := hw.of_append
    simpa [itemLeaves] using (hleft.written hfront).append (hright.written hbehind)
  · simp [itemCalls, hleft.calls, hright.calls]

/-- A pass retains the items that it has passed and those that follow. -/
theorem Pass.retains (h : Pass tier passed items out) :
    Retains (passed.reverse ++ items) out := by
  induction h with
  | @done passed =>
    rw [List.append_nil]
    exact .refl _
  | skip _ _ ih => simpa using ih
  | fold _ hleft hright _ ih => exact (retains_operation hleft hright).trans ih

/-- All tiers retain, one after another. -/
theorem foldTiers_retains {tiers : List Tier} (h : foldTiers tiers items = .ok out) :
    Retains items out := by
  induction tiers generalizing items with
  | nil =>
    cases h
    exact .refl _
  | cons tier more ih =>
    obtain ⟨items', hpass, h⟩ := foldTiers_cons_iff.mp h
    exact hpass.retains.trans (ih h)

/-! ### Calls -/

/-- The items begin with a group. -/
def beginsWithGroup : List Item → Bool
  | .expr (.group _ _) :: _ => true
  | _ => false

/-- Joins every name with the group behind it, and leaves the dots. -/
def joinCalls : List Item → List Item
  | .expr (.name n) :: .expr (.group first more) :: rest =>
    .expr (.call n [.group first more]) :: joinCalls rest
  | item :: rest => item :: joinCalls rest
  | [] => []

/-- Joins the calls of the items that follow `passed`. The last item that has been passed may be a
name that the first of them calls. -/
def joinFrom (passed items : List Item) : List Item :=
  match passed with
  | .expr (.name n) :: passed => passed.reverse ++ joinCalls (.expr (.name n) :: items)
  | passed => passed.reverse ++ joinCalls items

/-- Only a name is joined with what follows it. -/
theorem joinCalls_cons {item : Item} (h : ∀ n, item ≠ .expr (.name n)) (rest : List Item) :
    joinCalls (item :: rest) = item :: joinCalls rest := by
  rw [joinCalls]
  intro n first more rest' hitem
  exact absurd hitem (h n)

/-- A name without a group behind it calls nothing. -/
theorem joinCalls_name (n : String) {items : List Item} (h : beginsWithGroup items = false) :
    joinCalls (.expr (.name n) :: items) = .expr (.name n) :: joinCalls items := by
  rw [joinCalls]
  rintro _ first more rest _ rfl
  cases h

/-- Items that begin with a group, taken apart. -/
theorem exists_group {items : List Item} (h : beginsWithGroup items = true) :
    ∃ first more rest, items = .expr (.group first more) :: rest := by
  unfold beginsWithGroup at h
  split at h
  · exact ⟨_, _, _, rfl⟩
  · cases h

/-- A name that calls is no leaf. -/
theorem leaves_joinCalls_name (n : String) (items : List Item) :
    itemLeaves (joinCalls (.expr (.name n) :: items)) =
      if beginsWithGroup items then itemLeaves (joinCalls items)
      else .name n :: itemLeaves (joinCalls items) := by
  split
  · rename_i h
    obtain ⟨first, more, rest, rfl⟩ := exists_group h
    rw [joinCalls, joinCalls_cons (by simp)]
    simp [itemLeaves, Expr.leaves, exprLeaves]
  · rename_i h
    rw [joinCalls_name n (Bool.eq_false_iff.mpr h)]
    rfl

/-- A name is called iff a group stands behind it. -/
theorem calls_joinCalls_name (n : String) (items : List Item) :
    itemCalls (joinCalls (.expr (.name n) :: items)) =
      if beginsWithGroup items then n :: itemCalls (joinCalls items)
      else itemCalls (joinCalls items) := by
  split
  · rename_i h
    obtain ⟨first, more, rest, rfl⟩ := exists_group h
    rw [joinCalls, joinCalls_cons (by simp)]
    simp [itemCalls, Expr.calls, exprCalls]
  · rename_i h
    rw [joinCalls_name n (Bool.eq_false_iff.mpr h)]
    rfl

/-- If the last item passed is no name, then nothing is joined across the cut. -/
theorem joinFrom_of_ne_name (h : ∀ n rest, passed ≠ .expr (.name n) :: rest) (items : List Item) :
    joinFrom passed items = passed.reverse ++ joinCalls items := by
  unfold joinFrom
  split
  · rename_i n rest
    exact absurd rfl (h n rest)
  · rfl

/-- An item that is no group is passed over. -/
theorem joinFrom_cons {item : Item} (h : ∀ first more, item ≠ .expr (.group first more))
    (passed rest : List Item) : joinFrom passed (item :: rest) = joinFrom (item :: passed) rest := by
  have hgroup : beginsWithGroup (item :: rest) = false := by
    unfold beginsWithGroup
    split
    · rename_i first more rest' heq
      exact absurd (List.cons.inj heq).1 (h first more)
    · rfl
  have hpassed : joinFrom passed (item :: rest) = passed.reverse ++ joinCalls (item :: rest) := by
    unfold joinFrom
    split
    · rename_i n passed
      rw [joinCalls_name n hgroup, List.reverse_cons, List.append_cons]
    · rfl
  rw [hpassed]
  unfold joinFrom
  split
  · rename_i n passed' heq
    obtain ⟨rfl, rfl⟩ := List.cons.inj heq
    rfl
  · rename_i hname
    rw [joinCalls_cons fun n hitem => hname n passed (hitem ▸ rfl), List.reverse_cons,
      List.append_assoc]
    rfl

/-- The arguments of a call are the segments of its brackets, bracketed each by itself. -/
theorem leaves_arguments (first : List Item) (more : List (List Item)) :
    exprLeaves (arguments first more) = itemLeaves first ++ segmentLeaves more := by
  have hsegments (segments : List (List Item)) :
      exprLeaves (segments.map fun segment => .group segment []) = segmentLeaves segments := by
    induction segments with
    | nil => rfl
    | cons segment segments ih => simp [exprLeaves, Expr.leaves, segmentLeaves, ih]
  unfold arguments
  split
  · rfl
  · exact hsegments (first :: more)

/-- The names called in arguments are those called in the segments of the group. -/
theorem calls_arguments (first : List Item) (more : List (List Item)) :
    exprCalls (arguments first more) = itemCalls first ++ segmentCalls more := by
  have hsegments (segments : List (List Item)) :
      exprCalls (segments.map fun segment => .group segment []) = segmentCalls segments := by
    induction segments with
    | nil => rfl
    | cons segment segments ih => simp [exprCalls, Expr.calls, segmentCalls, ih]
  unfold arguments
  split
  · rfl
  · exact hsegments (first :: more)

/-- Placing a group keeps its operands and those of the receiver, which becomes the first
argument. -/
theorem placeGroup_retains {first : List Item} {more : List (List Item)}
    (h : placeGroup first more passed = .ok passed') (rest : List Item) :
    Retains (joinFrom passed (.expr (.group first more) :: rest)) (joinFrom passed' rest) := by
  unfold placeGroup at h
  split at h
  -- a method call: the receiver moves in front of the arguments, where its leaves were already
  · rename_i n receiver passed
    cases h
    simp only [joinFrom, joinCalls, List.reverse_cons, List.append_assoc]
    refine .append_left _ ⟨fun tokens hw => ?_, ?_⟩
    · simpa [itemLeaves, Expr.leaves, exprLeaves, leaves_arguments] using hw
    · simp [itemCalls, Expr.calls, exprCalls, calls_arguments]
  · cases h
  · cases h
  -- a plain call: the name is joined with its group on both sides
  · rename_i n passed _ _ _
    cases h
    simp only [joinFrom, joinCalls, List.reverse_cons, List.append_assoc]
    refine .append_left _ ⟨fun tokens hw => ?_, ?_⟩
    · simpa [itemLeaves, Expr.leaves, exprLeaves, leaves_arguments] using hw
    · simp [itemCalls, Expr.calls, exprCalls, calls_arguments]
  -- a value: without a name before it the group is joined with nothing
  · rename_i hname
    cases h
    rw [joinFrom_of_ne_name hname, joinCalls_cons (by simp), List.append_cons, ← List.reverse_cons]
    exact .refl _

/-- The pass that forms calls retains what is there once the calls to come are marked. -/
theorem foldCalls_retains (h : foldCalls passed items = .ok out) :
    Retains (joinFrom passed items) out := by
  fun_induction foldCalls passed items with
  | case1 passed =>
    cases h
    unfold joinFrom
    split
    · simpa [joinCalls] using Retains.refl _
    · simpa [joinCalls] using Retains.refl _
  | case2 passed first more rest passed' hplace ih =>
    exact (placeGroup_retains hplace rest).trans (ih h)
  | case3 => cases h
  | case4 passed item rest hitem ih =>
    rw [joinFrom_cons hitem]
    exact ih h

/-- All passes over a segment retain. -/
theorem foldSegment_retains (h : foldSegment items = .ok out) : Retains (joinCalls items) out := by
  unfold foldSegment at h
  split at h
  · rename_i hcalls
    exact (foldCalls_retains hcalls).trans (foldTiers_retains h)
  · cases h

end Folding

/-! ### Groups -/

/-- Whether brackets open at the front of tokens shows before the closing bracket. -/
@[simp] theorem opensRound_closing (b : Bracket) (contents tokens : List Token) :
    opensRound (contents ++ .closing b :: tokens) = opensRound contents := by
  cases contents with
  | nil => rfl
  | cons t contents =>
    cases t with
    | opening opened => cases opened <;> rfl
    | _ => rfl

/-- A bracket that closes parts the operands in front of it from those behind. -/
theorem operands_closing (b : Bracket) (contents tokens : List Token) :
    operands (contents ++ .closing b :: tokens) = operands contents ++ operands tokens := by
  fun_induction operands contents <;> simp_all [operands]

theorem calledNames_closing (b : Bracket) (contents tokens : List Token) :
    calledNames (contents ++ .closing b :: tokens) =
      calledNames contents ++ calledNames tokens := by
  fun_induction calledNames contents <;> simp_all [calledNames]

namespace Nesting

open Folding

variable {first items : List Item} {more segments : List (List Item)} {tokens : List Token}

/-- Round brackets stand in front of the items of a segment if they stand in front of its tokens. -/
theorem Nests.beginsWithGroup_eq (h : Nests first more tokens)
    (hitems : resolveItems first = .ok items) : beginsWithGroup items = opensRound tokens := by
  -- the first token decides: only a round bracket puts a group first, since a square one puts a dot
  -- before it
  cases h with
  | nil | comma =>
    cases resolveItems_nil_inv hitems
    rfl
  | dot | operator | number | name =>
    obtain ⟨rest, -, rfl⟩ := resolveItems_cons_inv (by simp) hitems
    rfl
  | brackets b =>
    cases b with
    | round =>
      obtain ⟨_, _, _, _, -, -, -, -, rfl⟩ := resolveItems_group_inv hitems
      rfl
    | square =>
      obtain ⟨rest, -, rfl⟩ := resolveItems_cons_inv (by simp) hitems
      rfl

/-- Folding the first segment of a group retains what the group carries. -/
theorem carries_fold {folded : List Item} (h : Carries (.group (joinCalls items) segments) tokens)
    (hfold : foldSegment items = .ok folded) : Carries (.group folded segments) tokens := by
  have hretains := foldSegment_retains hfold
  constructor
  · obtain ⟨front, behind, htokens, hfront, hbehind⟩ := h.leaves.of_append
    show Written (itemLeaves folded ++ segmentLeaves segments) (operands tokens)
    rw [htokens]
    exact (hretains.leaves _ hfront).append hbehind
  · exact (hretains.calls.symm.append_right _).trans h.calls

/-- A group in round brackets carries what stands between them. -/
theorem carries_round {contents : List Token} (h : Carries (.group (joinCalls items) segments) tokens)
    (hinner : Carries (.group first more) contents) :
    Carries (.group (joinCalls (.expr (.group first more) :: items)) segments)
      (.opening .round :: (contents ++ .closing .round :: tokens)) := by
  rw [joinCalls_cons (by simp)]
  constructor
  · show Written ((itemLeaves first ++ segmentLeaves more ++ itemLeaves (joinCalls items)) ++
      segmentLeaves segments) (operands (contents ++ .closing .round :: tokens))
    rw [operands_closing, List.append_assoc]
    exact hinner.leaves.append h.leaves
  · show ((itemCalls first ++ segmentCalls more ++ itemCalls (joinCalls items)) ++
      segmentCalls segments).Perm (calledNames (contents ++ .closing .round :: tokens))
    rw [calledNames_closing, List.append_assoc]
    exact hinner.calls.append h.calls

/-- An index carries what stands between its brackets, and calls its function. -/
theorem carries_square {contents : List Token}
    (h : Carries (.group (joinCalls items) segments) tokens)
    (hinner : Carries (.group first more) contents) :
    Carries (.group (joinCalls (.dot :: .expr (.name indexFunction) :: .expr (.group first more) ::
        items)) segments) (.opening .square :: (contents ++ .closing .square :: tokens)) := by
  rw [joinCalls_cons (by simp), joinCalls]
  constructor
  · show Written ((itemLeaves first ++ segmentLeaves more ++ [] ++ itemLeaves (joinCalls items)) ++
      segmentLeaves segments) (operands (contents ++ .closing .square :: tokens))
    rw [operands_closing, List.append_nil, List.append_assoc]
    exact hinner.leaves.append h.leaves
  · show (indexFunction :: (itemCalls first ++ segmentCalls more ++ [] ++
      itemCalls (joinCalls items)) ++ segmentCalls segments).Perm
        (indexFunction :: calledNames (contents ++ .closing .square :: tokens))
    rw [calledNames_closing, List.append_nil, List.cons_append, List.append_assoc]
    exact (hinner.calls.append h.calls).cons _

/-- Tokens are carried by what is folded from the segments that they hold. -/
theorem Nests.carries (h : Nests first more tokens) (hitems : resolveItems first = .ok items)
    (hsegments : resolveSegments more = .ok segments) :
    Carries (.group (joinCalls items) segments) tokens := by
  induction h generalizing items segments with
  | nil =>
    cases resolveItems_nil_inv hitems
    cases resolveSegments_nil_inv hsegments
    exact ⟨.nil, .refl _⟩
  | comma _ ih =>
    cases resolveItems_nil_inv hitems
    obtain ⟨inner, folded, _, hinner, hfold, hrest, rfl⟩ := resolveSegments_cons_inv hsegments
    have hcarries := carries_fold (ih hinner hrest) hfold
    exact ⟨hcarries.leaves, hcarries.calls⟩
  | dot _ ih =>
    obtain ⟨rest, hrest, rfl⟩ := resolveItems_cons_inv (by simp) hitems
    rw [joinCalls_cons (by simp)]
    have hcarries := ih hrest hsegments
    exact ⟨hcarries.leaves, hcarries.calls⟩
  | operator op _ ih =>
    obtain ⟨rest, hrest, rfl⟩ := resolveItems_cons_inv (by simp) hitems
    rw [joinCalls_cons (by simp)]
    have hcarries := ih hrest hsegments
    exact ⟨hcarries.leaves, hcarries.calls⟩
  | number x _ ih =>
    obtain ⟨rest, hrest, rfl⟩ := resolveItems_cons_inv (by simp) hitems
    rw [joinCalls_cons (by simp)]
    have hcarries := ih hrest hsegments
    exact ⟨.number x hcarries.leaves, hcarries.calls⟩
  | @name first more tokens n h ih =>
    obtain ⟨rest, hrest, rfl⟩ := resolveItems_cons_inv (by simp) hitems
    have hcarries := ih hrest hsegments
    have hbegins := h.beginsWithGroup_eq hrest
    -- the name calls what stands behind it or else is an operand, among the items as it is
    -- among the tokens
    constructor
    · show Written (itemLeaves (joinCalls (.expr (.name n) :: rest)) ++ segmentLeaves segments) _
      rw [leaves_joinCalls_name, hbegins, operands]
      split
      · exact hcarries.leaves
      · exact .name n hcarries.leaves
    · show (itemCalls (joinCalls (.expr (.name n) :: rest)) ++ segmentCalls segments).Perm _
      rw [calls_joinCalls_name, hbegins, calledNames]
      split
      · exact hcarries.calls.cons n
      · exact hcarries.calls
  | @brackets inner first innerMore more contents tokens b hinner h ihinner ih =>
    cases b with
    | round =>
      obtain ⟨items', folded, more', rest, hitems', hfold, hmore', hrest, rfl⟩ :=
        resolveItems_group_inv hitems
      exact carries_round (ih hrest hsegments) (carries_fold (ihinner hitems' hmore') hfold)
    | square =>
      obtain ⟨_, hdot, rfl⟩ := resolveItems_cons_inv (by simp) hitems
      obtain ⟨_, hname, rfl⟩ := resolveItems_cons_inv (by simp) hdot
      obtain ⟨items', folded, more', rest, hitems', hfold, hmore', hrest, rfl⟩ :=
        resolveItems_group_inv hname
      exact carries_square (ih hrest hsegments) (carries_fold (ihinner hitems' hmore') hfold)

end Nesting

/-- The tree of a source carries its tokens. -/
theorem parse_carries {source : String} {e : Expr} (h : parse source = .ok e) :
    ∃ tokens, tokenize source = .ok tokens ∧ Carries e tokens := by
  obtain ⟨tokens, first, items, htokens, hnests, hitems, hfold⟩ := parse_inv h
  have hsegments : Folding.resolveSegments [] = .ok [] := by rw [Folding.resolveSegments]
  have hcarries := Nesting.carries_fold (hnests.carries hitems hsegments) hfold
  have hleaves : Written (e.leaves ++ [] ++ []) (operands tokens) := hcarries.leaves
  have hcalls : (e.calls ++ [] ++ []).Perm (calledNames tokens) := hcarries.calls
  rw [List.append_nil, List.append_nil] at hleaves hcalls
  exact ⟨tokens, htokens, hleaves, hcalls⟩

/-- **No operand is lost.** The leaves of the tree of a source, from left to right, are the operands
of its tokens, in order and each once, but for those that operators supply. The names that the tree
calls are those before a round bracket, and one for every index. -/
theorem parse_operands {source : String} {e : Expr} (h : parse source = .ok e) :
    ∃ tokens, tokenize source = .ok tokens ∧ Written e.leaves (operands tokens) ∧
      e.calls.Perm (calledNames tokens) := by
  obtain ⟨tokens, htokens, hcarries⟩ := parse_carries h
  exact ⟨tokens, htokens, hcarries.leaves, hcarries.calls⟩

/-- Of three leaves the source has written one: the zero before `-` and the open end are supplied. -/
theorem parse_operands_supplied :
    let e : Expr := .operation .minus (.number 0)
      (.operation .range (.call "f" [.group [.expr (.name "x")] []]) .nothing)
    parse "-f(x).." = .ok e ∧ e.leaves = [.base 0, .name "x", .nothing] ∧
      Written e.leaves [.name "x"] ∧ e.calls.Perm ["f"] := by
  intro e
  have hscan : Scan.scan false "-f(x)..".toList = ⟨[.operator .minus, .name "f", .opening .round,
      .name "x", .closing .round, .operator .range], none⟩ := by
    have hminus : Scan.next false "-f(x)..".toList = .token (.operator .minus) "f(x)..".toList := rfl
    have hf : Scan.next (Token.operator .minus).endsValue "f(x)..".toList =
        .token (.name "f") "(x)..".toList := rfl
    have hopening : Scan.next (Token.name "f").endsValue "(x)..".toList =
        .token (.opening .round) "x)..".toList := rfl
    have hx : Scan.next (Token.opening .round).endsValue "x)..".toList =
        .token (.name "x") ")..".toList := rfl
    have hclosing : Scan.next (Token.name "x").endsValue ")..".toList =
        .token (.closing .round) "..".toList := rfl
    have hrange : Scan.next (Token.closing .round).endsValue "..".toList =
        .token (.operator .range) [] := rfl
    rw [Scan.scan_of_token hminus, Scan.scan_of_token hf, Scan.scan_of_token hopening,
      Scan.scan_of_token hx, Scan.scan_of_token hclosing, Scan.scan_of_token hrange, Scan.scan_nil]
  have hparse : parse "-f(x).." = .ok e := by
    refine parse_iff.mpr ⟨[.operator .minus, .expr (.name "f"),
      .expr (.group [.expr (.name "x")] []), .operator .range], ⟨_, hscan, rfl⟩, ?_⟩
    unfold Folding.Folds
    simp only [Folding.resolveItems, Folding.resolveSegments]
    rfl
  obtain ⟨tokens, htokens, hleaves, hcalls⟩ := parse_operands hparse
  cases (tokenize_eq_ok_iff.mpr hscan).symm.trans htokens
  exact ⟨hparse, rfl, hleaves, hcalls⟩

end PixelCalc
