import PixelCalc.Proofs.Folding.Prefix

/-!
# Folding and the grammar

The seven passes accept exactly the segments of the grammar and build the trees of their
derivations.

Each pass replaces the phrases of one level by their trees, so the tiers from one on recognize the
grammar in which all tighter levels are single operands (`Recognizes`). A tier put in front adds the
level that it folds (`recognizes_cons`).

- `foldTiers_eq_ok_iff`: the tiers leave one expression exactly on the segments of the grammar in
  which `**` between two ranges stands directly after an operand.
- `power_after_open_range`: in the grammar that only asks that no bound be passed over, there is a
  segment that the tiers refuse.
-/

namespace PixelCalc
namespace Folding

open Grammar

/-! ### Phrases over single operands are sparse -/

section

variable {ops ops' : List Operator} {Head Operand F : Phrase} {Joins : Junction}
  {l r items : List Item} {op : Operator} {e : Expr}

theorem Sparse.nil : Sparse ops [] :=
  ⟨trivial, fun _ _ => List.not_mem_nil⟩

theorem Sparse.single : Sparse ops [.expr e] :=
  ⟨⟨fun _ => rfl, trivial⟩, fun _ _ hmem => by simp at hmem⟩

/-- An operator between two separated lists keeps the operands at its sides apart. -/
theorem separated_append_operator (hl : Separated l) (hr : Separated r) :
    Separated (l ++ .operator op :: r) := by
  induction l with
  | nil => exact ⟨nofun, hr⟩
  | cons item l ih =>
    refine ⟨fun hitem => ?_, ih hl.2⟩
    cases l with
    | nil => rfl
    | cons _ _ => exact hl.1 hitem

/-- Sparse lists stay sparse when another operator is put between them. -/
theorem Sparse.operator (hop : op ∉ ops) (hl : Sparse ops l) (hr : Sparse ops r) :
    Sparse ops (l ++ .operator op :: r) := by
  refine ⟨separated_append_operator hl.separated hr.separated, fun op' hop' hmem => ?_⟩
  rcases List.mem_append.mp hmem with hmem | hmem
  · exact hl.absent op' hop' hmem
  · rcases List.mem_cons.mp hmem with heq | hmem
    · cases heq
      exact hop hop'
    · exact hr.absent op' hop' hmem

/-- All phrases of a level are sparse. -/
def AllSparse (ops : List Operator) (F : Phrase) : Prop :=
  ∀ items e, F items e → Sparse ops items

theorem allSparse_single : AllSparse ops Single := by
  rintro _ _ ⟨⟩
  exact .single

/-- A chain is sparse if its parts are and its own operators are none of those in question; by
induction on the chain. -/
theorem allSparse_chain (hjoins : ∀ {l op r}, Joins l op r → op ∉ ops) (hhead : AllSparse ops Head)
    (hoperand : AllSparse ops Operand) : AllSparse ops (Chain Joins Head Operand) :=
  fun _ _ h => h.induct_items (Q := Sparse ops) (hhead _ _) (hoperand _ _)
    fun hop => .operator (hjoins hop)

theorem allSparse_oneOf (hops : ∀ op ∈ ops', op ∉ ops) (hhead : AllSparse ops Head)
    (hoperand : AllSparse ops Operand) : AllSparse ops (Chain (oneOf ops') Head Operand) :=
  allSparse_chain (fun hop => hops _ hop) hhead hoperand

/-- A sign in front adds one operator and no operand. -/
theorem allSparse_signed {left : Expr} (hops : ∀ op ∈ ops', op ∉ ops) (h : AllSparse ops F) :
    AllSparse ops (Signed ops' left F) := by
  rintro _ _ (hF | ⟨hop, hF⟩)
  · exact h _ _ hF
  · exact .operator (l := []) (hops _ hop) .nil (h _ _ hF)

/-- The only operator between single operands of a range is that of ranges. -/
theorem allSparse_ranged (hops : .range ∉ ops) : AllSparse ops (Ranged Single) := by
  have hbound {items : List Item} {e : Expr} (h : Bound Single items e) : Sparse ops items := by
    rcases h with _ | h
    · exact .nil
    · exact allSparse_single _ _ h
  rintro _ _ (h | h)
  · exact allSparse_single _ _ h
  · induction h with
    | first hl hr => exact .operator hops (hbound hl) (hbound hr)
    | next _ hr ih => exact .operator hops ih (hbound hr)

end

/-! ### Tiers and levels -/

/-- The tiers leave one expression exactly on the phrases of a level, namely their trees. -/
def Recognizes (tiers : List Tier) (F : Phrase) : Prop :=
  ∀ items e, foldTiers tiers items = .ok [.expr e] ↔ F items e

/-- Without tiers only a single operand is one expression. -/
theorem recognizes_nil : Recognizes [] Single := by
  intro items e
  constructor
  · rintro ⟨⟩
    exact .operand e
  · rintro ⟨⟩
    rfl

/-- A tier in front of others adds the level of its phrases. -/
theorem recognizes_cons {ops : List Operator} {more : List Tier} {Level F' F : Phrase}
    (hlevel : TierPhrase ops = Level) (hmore : Recognizes more F) (hsparse : AllSparse ops F)
    (hlifts : Lifts (Replaced Level) F' F) : Recognizes (⟨ops, false⟩ :: more) F' := by
  subst hlevel
  intro items e
  rw [foldTiers_cons_iff, hlifts]
  constructor
  · rintro ⟨out, hpass, h⟩
    exact ⟨out, hpass.replaced .nil, (hmore out e).mp h⟩
  · rintro ⟨out, hreplaced, h⟩
    exact ⟨out, pass_of_replaced rfl hreplaced (hsparse _ _ h) (.inl rfl), (hmore out e).mpr h⟩

/-- The prefix tier in front of others adds the unaries. -/
theorem recognizes_cons_prefix {more : List Tier} {F'' F' F : Phrase} (hmore : Recognizes more F)
    (hguards : Guards F' F) (hsparse : AllSparse [] F') (hlifts : Lifts (Replaced Unary) F'' F') :
    Recognizes (prefixTier :: more) F'' := by
  intro items e
  rw [foldTiers_cons_iff, hlifts]
  constructor
  · rintro ⟨out, hpass, h⟩
    obtain ⟨hreplaced, hattached⟩ := hpass.replaced_unary .nil trivial
    exact ⟨out, hreplaced, (hguards out e).mpr ⟨(hmore out e).mp h, hattached⟩⟩
  -- an attached list is separated, so the pass stops at the same unaries
  · rintro ⟨out, hreplaced, h⟩
    obtain ⟨hF, hattached⟩ := (hguards out e).mp h
    rw [← List.append_nil out.reverse] at hattached
    exact ⟨out, pass_of_replaced_unary hreplaced (hsparse _ _ h).separated hattached (.inl rfl),
      (hmore out e).mpr hF⟩

/-! ### The levels one by one -/

section

variable {ops : List Operator} {P F' F : Phrase}

theorem allSparse_assignment (hops : ∀ op ∈ [Operator.assign], op ∉ ops) (h : AllSparse ops F) :
    AllSparse ops (Assignment F) :=
  allSparse_oneOf hops h h

theorem allSparse_comparison
    (hops : ∀ op ∈ [Operator.equal, .notEqual, .greater, .greaterEqual, .less, .lessEqual],
      op ∉ ops) (h : AllSparse ops F) : AllSparse ops (Comparison F) :=
  allSparse_oneOf hops h h

theorem allSparse_sum (hops : ∀ op ∈ [Operator.plus, .minus], op ∉ ops) (h : AllSparse ops F) :
    AllSparse ops (Sum F) :=
  allSparse_oneOf hops (allSparse_signed hops h) h

theorem allSparse_product (hops : ∀ op ∈ [Operator.times, .divide, .remainder], op ∉ ops)
    (h : AllSparse ops F) : AllSparse ops (Product F) :=
  allSparse_oneOf hops h h

/-- The levels above the powers bring no range and no power with them. -/
theorem allSparse_abovePowers (hops : ∀ op ∈ ops, op = .range ∨ op = .power)
    (h : AllSparse ops F) : AllSparse ops (AbovePowers F) := by
  have hother {level : List Operator} (hrange : .range ∉ level) (hpower : .power ∉ level) :
      ∀ op ∈ level, op ∉ ops := by
    rintro op hop hmem
    rcases hops op hmem with rfl | rfl
    · exact hrange hop
    · exact hpower hop
  exact allSparse_assignment (hother (by decide) (by decide))
    (allSparse_comparison (hother (by decide) (by decide))
      (allSparse_sum (hother (by decide) (by decide))
        (allSparse_product (hother (by decide) (by decide)) h)))

theorem lifts_assignment (h : Lifts (Replaced P) F' F) :
    Lifts (Replaced P) (Assignment F') (Assignment F) :=
  lifts_oneOf h h

theorem lifts_comparison (h : Lifts (Replaced P) F' F) :
    Lifts (Replaced P) (Comparison F') (Comparison F) :=
  lifts_oneOf h h

theorem lifts_sum (h : Lifts (Replaced P) F' F) : Lifts (Replaced P) (Sum F') (Sum F) :=
  lifts_oneOf (lifts_signed h) h

theorem lifts_product (h : Lifts (Replaced P) F' F) :
    Lifts (Replaced P) (Product F') (Product F) :=
  lifts_oneOf h h

/-- The levels above powers read unaries and their trees alike. This is the lifting lemmas one on
top of the other, in the order of the levels. -/
theorem lifts_abovePowers (h : Lifts (Replaced P) F' F) :
    Lifts (Replaced P) (AbovePowers F') (AbovePowers F) :=
  lifts_assignment (lifts_comparison (lifts_sum (lifts_product h)))

end

/-- The tiers after the prefixes fold ranges, then powers, then the levels above. -/
theorem recognizes_tail :
    Recognizes tiers.tail (AbovePowers (PowerOrPrefix (Ranged Single))) := by
  -- from the last tier on, each one in front puts its level under those of the tiers after it
  have hassign : Recognizes (tiers.drop 6) (Assignment Single) :=
    recognizes_cons (tierPhrase_eq_plain (by decide) (by decide)) recognizes_nil
      allSparse_single (lifts_single _)
  have hcompare : Recognizes (tiers.drop 5) (Assignment (Comparison Single)) :=
    recognizes_cons (tierPhrase_eq_plain (by decide) (by decide)) hassign
      (allSparse_assignment (by decide) allSparse_single)
      (lifts_assignment (lifts_single _))
  have hadd : Recognizes (tiers.drop 4) (Assignment (Comparison (Sum Single))) :=
    recognizes_cons (tierPhrase_eq_signed (by decide) (by simp [implicitLeft])) hcompare
      (allSparse_assignment (by decide) (allSparse_comparison (by decide) allSparse_single))
      (lifts_assignment (lifts_comparison (lifts_single _)))
  have hmultiply : Recognizes (tiers.drop 3) (AbovePowers Single) :=
    recognizes_cons (tierPhrase_eq_plain (by decide) (by decide)) hadd
      (allSparse_assignment (by decide) (allSparse_comparison (by decide)
        (allSparse_sum (by decide) allSparse_single)))
      (lifts_assignment (lifts_comparison (lifts_sum (lifts_single _))))
  have hpower : Recognizes (tiers.drop 2) (AbovePowers (PowerOrPrefix Single)) :=
    recognizes_cons (tierPhrase_eq_signed (by decide) (by simp [implicitLeft])) hmultiply
      (allSparse_abovePowers (by decide) allSparse_single)
      (lifts_abovePowers (lifts_single _))
  exact recognizes_cons tierPhrase_range hpower
    (allSparse_abovePowers (by decide)
      (allSparse_oneOf (by decide) (allSparse_signed (by decide) allSparse_single)
        allSparse_single))
    (lifts_abovePowers (lifts_oneOf (lifts_signed (lifts_single _)) (lifts_single _)))

/-! ### Segments -/

/-- A phrase of unaries ends in an operand exactly if its replacement does. -/
theorem Replaced.endsInOperand_iff {items out : List Item} (h : Replaced Unary items out) :
    EndsInOperand items ↔ EndsInOperand out := by
  rcases out.eq_nil_or_concat with rfl | ⟨front, last, rfl⟩
  · rw [Replaced.nil_iff.mp h]
  · rw [List.concat_eq_append] at h ⊢
    obtain ⟨items₁, items₂, rfl, -, hlast⟩ := h.of_append
    cases last with
    | expr e =>
      rcases Replaced.single_iff.mp hlast with _ | _ <;> simp [EndsInOperand]
    | operator op =>
      obtain ⟨rest, rfl, hrest⟩ := (Replaced.keep_iff rfl).mp hlast
      simp [EndsInOperand, Replaced.nil_iff.mp hrest]
    | dot =>
      obtain ⟨rest, rfl, hrest⟩ := (Replaced.keep_iff rfl).mp hlast
      simp [EndsInOperand, Replaced.nil_iff.mp hrest]

theorem separated_segment : AllSparse [] (AbovePowers (Power afterOperand (Ranged Single))) :=
  allSparse_abovePowers (fun _ hop => absurd hop List.not_mem_nil)
    (allSparse_chain (fun _ => List.not_mem_nil) (allSparse_ranged List.not_mem_nil)
      (allSparse_ranged List.not_mem_nil))

/-- The tiers leave one expression exactly on the segments of the grammar, namely the tree of the
derivation. -/
theorem foldTiers_eq_ok_iff (items : List Item) (e : Expr) :
    foldTiers tiers items = .ok [.expr e] ↔ Segment afterOperand items e := by
  have hlifts : Lifts (Replaced Unary) (Segment afterOperand)
      (AbovePowers (Power afterOperand (Ranged Single))) :=
    lifts_abovePowers (lifts_chain (lifts_ranged (lifts_single Unary))
      (lifts_ranged (lifts_single Unary))
      fun hl _ => and_congr_right' (Replaced.endsInOperand_iff hl))
  exact recognizes_cons_prefix recognizes_tail (guards_abovePowers guards_power)
    separated_segment hlifts items e

/-- In `5 .. ** 3` the sign belongs to the upper bound. -/
example :
    foldTiers tiers [.expr (.number 5), .operator .range, .operator .power, .expr (.number 3)] =
      .ok [.expr (.operation .range (.number 5) (.operation .power .nothing (.number 3)))] :=
  rfl

/-- After the open end of a range a power is refused, though the grammar would let it stand between
the two ranges. -/
theorem power_after_open_range :
    let items : List Item := [.expr (.number 1), .operator .range, .operator .power,
      .operator .range, .expr (.number 2)]
    (∃ e, Segment unlessBound items e) ∧
      foldTiers tiers items = .error (.invalidRight .power (.operator .range)) ∧
      ¬ ∃ e, foldTiers tiers items = .ok [.expr e] := by
  refine ⟨⟨.operation .power (.operation .range (.number 1) .nothing)
    (.operation .range .nothing (.number 2)), ?_⟩, rfl, ?_⟩
  -- the power stands between an open range to its left and one to its right; no bound is passed
  -- over
  · have hleft : Ranged Unary [.expr (.number 1), .operator .range]
        (.operation .range (.number 1) .nothing) :=
      .interval (.first (.present (Unary.operand _)) .missing)
    have hright : Ranged Unary [.operator .range, .expr (.number 2)]
        (.operation .range .nothing (.number 2)) :=
      .interval (.first .missing (.present (Unary.operand _)))
    have hpower : unlessBound [.expr (.number 1), .operator .range] .power
        [.operator .range, .expr (.number 2)] := by
      refine ⟨rfl, ?_⟩
      rintro ⟨-, _, _, _, heq, _ | _⟩ <;> cases heq
    exact .head (.head (.head (.plain (.head (.more (.head hleft) hpower hright)))))
  -- the tiers stop at the power, which has no operand right before it
  · rintro ⟨e, ⟨⟩⟩

end Folding
end PixelCalc
