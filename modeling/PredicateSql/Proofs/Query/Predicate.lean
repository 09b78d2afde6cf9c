import PredicateSql.Proofs.Query.Chains

/-!
# Filters mean their predicates

* `Context.condition_means`: the condition that a predicate becomes has the truth value of the
  predicate on every row, negated where the predicate stands under an odd number of negations. The
  induction is on the predicate, over all scopes and all trees.
* `Compiler.filter_spec`: the filter of a query means the predicate of its request.
-/

namespace PredicateSql

open Sql (Term)

/-! ### Truth values of terms -/

section Terms

variable {db : Sql.Database} {row : Sql.Row} {a b : Term} {x y : Truth} {negated : Bool}

/-- A connective becomes its complement under a negation. -/
theorem Sql.Term.truth_logical {op : Sql.Operator} (hop : op = .and ∨ op = .or)
    (ha : a.truth db row = x.negateIf negated) (hb : b.truth db row = y.negateIf negated) :
    (Term.operation a (op.invertIf negated) b).truth db row =
      (if op = .and then x.and y else x.or y).negateIf negated := by
  rw [truth] at ha hb
  rw [truth, operation, eval]
  rcases hop with rfl | rfl <;> cases negated <;>
    simp [Operator.invertIf, Operator.invert, Database.binary, ha, hb, Truth.negateIf,
      Truth.not_and, Truth.not_or]

theorem Sql.Term.truth_isNull :
    (Term.isNull a (.invertIf negated .equalsNull)).truth db row =
      (Truth.ofBool (a.eval db row).isNull).negateIf negated := by
  rw [truth, eval, Truth.ofValue_toValue]
  cases negated
  · rfl
  · exact (Truth.not_ofBool _).symm

end Terms

namespace Source

variable {m : Source} {v : Value} {x : Truth} {t : JoinTree} {a : Term}

/-- Where every alias is read at the end of its path, the term has this truth value. -/
def Means (m : Source) (x : Truth) (t : JoinTree) (a : Term) : Prop :=
  ∀ T : JoinTree, t.Extends T → a.truth m.db (T.row m.values) = x

theorem means_stable : Walk.Stable (m.Means x) :=
  fun _ _ _ hext h _ hT => h _ (hext.trans hT)

theorem Reads.means (h : m.Reads v t a) : m.Means (.ofValue v) t a := by
  intro T hT
  rw [Term.truth, h T hT]

theorem Means.not (h : m.Means x t a) : m.Means x.not t (.not a) := by
  intro T hT
  have ha : Truth.ofValue (a.eval m.db (T.row m.values)) = x := h T hT
  rw [Term.truth, Term.eval, ha, Truth.ofValue_toValue]

theorem Means.logical {x' : Truth} {b : Term} {negated : Bool} {op : Sql.Operator}
    (hop : op = .and ∨ op = .or) (ha : m.Means (x.negateIf negated) t a)
    (hb : m.Means (x'.negateIf negated) t b) :
    m.Means ((if op = .and then x.and x' else x.or x').negateIf negated) t
      (.operation a (op.invertIf negated) b) :=
  fun T hT => Sql.Term.truth_logical hop (ha T hT) (hb T hT)

theorem Means.conditional {test ifTrue ifFalse : Term} {y z : Truth} {negated : Bool}
    (htest : m.Means x t test) (hTrue : m.Means (y.negateIf negated) t ifTrue)
    (hFalse : m.Means (z.negateIf negated) t ifFalse) :
    m.Means ((if x = .yes then y else z).negateIf negated) t
      (.conditional test ifTrue ifFalse) := by
  intro T hT
  have htest : Truth.ofValue (test.eval m.db (T.row m.values)) = x := htest T hT
  rw [Term.truth, Term.eval, htest]
  by_cases hyes : x = .yes
  · rw [if_pos hyes, if_pos hyes]
    exact hTrue T hT
  · rw [if_neg hyes, if_neg hyes]
    exact hFalse T hT

theorem Reads.isNull {negated : Bool} (h : m.Reads v t a) :
    m.Means ((Truth.ofBool v.isNull).negateIf negated) t
      (.isNull a (.invertIf negated .equalsNull)) := by
  intro T hT
  rw [Sql.Term.truth_isNull, h T hT]

end Source

namespace Context

variable {c : Context} {m : Source} {s : Scope} {e : Expr}

/-! ### Comparisons and lists -/

theorem comparison_ordering_yields {operator : Sql.Operator} {test : Ordering → Bool}
    {left right : Expr} {walkLeft walkRight : Walk Term} {x y : Value}
    (hoperator : operator.ordering? = some test)
    (hnull : c.nullTest? operator left right = .ok none)
    (hleft : walkLeft.Yields (m.Starts c) (m.Reads x))
    (hright : walkRight.Yields (m.Starts c) (m.Reads y)) :
    (c.comparison operator left right walkLeft walkRight).Yields (m.Starts c)
      (m.Means (m.db.compareBy test x y)) := by
  unfold comparison
  rw [hnull]
  simp only [Walk.lift_ok, pure_bind]
  refine Walk.Yields.bind Source.reads_stable hleft fun a => ?_
  refine Walk.Yields.bind Source.reads_stable hright fun b => ?_
  refine Walk.Yields.pure fun t hb ha T hT => ?_
  rw [Term.truth, Term.operation, Term.eval, Sql.Database.binary_of_ordering hoperator, ha T hT,
    hb T hT, Truth.ofValue_toValue]

theorem comparison_null_yields {operator : Sql.Operator} {left right : Expr}
    {negated leftIsNull : Bool} {walkLeft walkRight : Walk Term} {x : Value}
    (hnull : c.nullTest? operator left right =
      .ok (some (leftIsNull, .invertIf negated .equalsNull)))
    (hwalk : (if leftIsNull then walkRight else walkLeft).Yields (m.Starts c) (m.Reads x)) :
    (c.comparison operator left right walkLeft walkRight).Yields (m.Starts c)
      (m.Means ((Truth.ofBool x.isNull).negateIf negated)) := by
  unfold comparison
  rw [hnull]
  simp only [Walk.lift_ok, pure_bind]
  cases leftIsNull <;>
    exact Walk.Yields.bind Source.reads_stable hwalk fun a =>
      Walk.Yields.pure fun t ha => ha.isNull

theorem nullTest?_equals {left right : Expr} {l r : Bool} (negated : Bool)
    (hl : c.isProvablyNull left = .ok l) (hr : c.isProvablyNull right = .ok r) :
    c.nullTest? (.invertIf negated .equals) left right =
      .ok (if l then some (true, .invertIf negated .equalsNull)
        else if r then some (false, .invertIf negated .equalsNull) else none) := by
  rw [nullTest?_eq_ok hl hr]
  cases negated <;> rfl

/-- `==` becomes a test against `NULL` next to the constant `null`, and so does `!=`. -/
theorem equality_yields {left right : Expr} {walkLeft walkRight : Walk Term} (negated : Bool)
    (hl : c.isProvablyNull left = .ok left.isNullConstant)
    (hr : c.isProvablyNull right = .ok right.isNullConstant)
    (hleft : walkLeft.Yields (m.Starts c) (m.Reads (m.operand left)))
    (hright : walkRight.Yields (m.Starts c) (m.Reads (m.operand right))) :
    (c.comparison (.invertIf negated .equals) left right walkLeft walkRight).Yields
      (m.Starts c) (m.Means ((m.equality left right).negateIf negated)) := by
  have hnull := nullTest?_equals negated hl hr
  rw [Source.equality]
  by_cases hleftNull : left.isNullConstant = true
  · rw [if_pos hleftNull] at hnull ⊢
    exact comparison_null_yields hnull hright
  rw [if_neg hleftNull] at hnull ⊢
  by_cases hrightNull : right.isNullConstant = true
  · rw [if_pos hrightNull] at hnull ⊢
    exact comparison_null_yields hnull hleft
  rw [if_neg hrightNull] at hnull ⊢
  -- Neither operand is the constant `null`: the operator is kept, or becomes its complement.
  cases negated with
  | false => exact comparison_ordering_yields rfl hnull hleft hright
  | true =>
    have htest : Sql.Operator.ordering? .notEquals = some fun o => !(o == .eq) := rfl
    have hnot := comparison_ordering_yields htest hnull hleft hright
    rwa [Sql.Database.compareBy_not] at hnot

/-- A comparison means the comparison of its operands, or its negation. -/
theorem comparison_yields_kleene {op : BinaryOp} {operator : Sql.Operator} {left right : Expr}
    {walkLeft walkRight : Walk Term} (negated : Bool) (hop : op.isComparison = true)
    (hoperator : Sql.Operator.ofBinary? op = some operator)
    (hl : c.isProvablyNull left = .ok left.isNullConstant)
    (hr : c.isProvablyNull right = .ok right.isNullConstant)
    (hleft : walkLeft.Yields (m.Starts c) (m.Reads (m.operand left)))
    (hright : walkRight.Yields (m.Starts c) (m.Reads (m.operand right))) :
    (c.comparison (operator.invertIf negated) left right walkLeft walkRight).Yields (m.Starts c)
      (m.Means ((m.comparison op left right).negateIf negated)) := by
  have hordering : ∀ test : Ordering → Bool, operator.ordering? = some test →
      c.nullTest? operator left right = .ok none →
      (c.comparison (operator.invertIf negated) left right walkLeft walkRight).Yields (m.Starts c)
        (m.Means ((m.db.compareBy test (m.operand left) (m.operand right)).negateIf negated)) := by
    intro test htest hnull
    cases negated with
    | false => exact comparison_ordering_yields htest hnull hleft hright
    | true =>
      have hinvert : c.nullTest? operator.invert left right = .ok none := by
        rw [nullTest?_invert, hnull]
        rfl
      have hnot := comparison_ordering_yields (Sql.Operator.ordering?_invert htest) hinvert
        hleft hright
      rwa [Sql.Database.compareBy_not] at hnot
  cases op with
  | equal =>
    obtain rfl := Option.some.inj hoperator
    exact equality_yields negated hl hr hleft hright
  | notEqual =>
    obtain rfl := Option.some.inj hoperator
    -- `!=` is `==` under one more negation.
    have hequal := equality_yields (!negated) hl hr hleft hright
    cases negated with
    | false => exact hequal
    | true =>
      rw [Source.comparison, Truth.negateIf, if_pos rfl, Truth.not_not]
      exact hequal
  | less | lessOrEqual | greater | greaterOrEqual =>
    obtain rfl := Option.some.inj hoperator
    exact hordering _ rfl rfl
  | _ => cases hop

theorem evalAll_literalsOf {values : List Value} {list : List Term} (db : Sql.Database)
    (row : Sql.Row) (h : literalsOf values = .ok list) : Term.evalAll db row list = values := by
  induction values generalizing list with
  | nil =>
    obtain rfl := Except.ok.inj h
    rfl
  | cons value rest ih =>
    obtain ⟨a, terms, ha, hterms, rfl⟩ := literalsOf_cons_eq_ok h
    rw [Term.evalAll, literalOf_eq_ok ha, Term.eval, ih hterms]

/-- The elements of a list that are `null` decide nothing but whether the item is `null`. -/
theorem isIn_filter (item : Value) (values : List Value) :
    m.isIn item values = (m.db.isIn item (values.filter fun v => !v.isNull)).or
      (if values.any Value.isNull then .ofBool item.isNull else .no) := by
  induction values with
  | nil => rfl
  | cons v rest ih =>
    rw [Source.isIn, ih]
    generalize hfound : m.db.isIn item (rest.filter fun v => !v.isNull) = found
    by_cases hv : v.isNull = true
    -- An element that is `null` leaves the list, and its test moves to the end.
    · simp only [hv, List.filter_cons, List.any_cons, Bool.not_true, if_true, Bool.true_or,
        Bool.false_eq_true, if_false, hfound]
      cases rest.any Value.isNull with
      | true => rw [if_pos rfl, Truth.or_comm, Truth.or_assoc, Truth.or_self]
      | false => rw [if_neg Bool.false_ne_true, Truth.or_no, Truth.or_comm]
    · rw [Bool.not_eq_true] at hv
      simp only [hv, List.filter_cons, List.any_cons, Bool.not_false, if_true, Bool.false_or,
        Bool.false_eq_true, if_false, Sql.Database.isIn, hfound]
      exact Truth.or_assoc.symm

/-- What a membership becomes: nothing is in an empty collection, and an item is in any other if it
is equal to one of the elements, or `null` like one of them. -/
theorem inList_runs {collection : Expr} {walkItem : Walk Term} {t t' : JoinTree} {a : Term}
    (h : (c.inList s collection walkItem).Runs t a t') :
    ∃ v, collection.isClosed = .ok true ∧ c.evaluator.evaluate collection = .ok v ∧
      ((v.toList = [] ∧ t = t' ∧ ∀ db row, a.truth db row = Truth.no.negateIf s.negated) ∨
        ∃ item, walkItem.Runs t item t' ∧ ∀ (m : Source) row,
          a.truth m.db row = (m.isIn (item.eval m.db row) v.toList).negateIf s.negated) := by
  simp only [inList, ClosedEvaluator.evaluate_standard] at h
  obtain ⟨closed, _, hlift, h⟩ := Walk.runs_bind.1 h
  obtain ⟨hclosed, rfl⟩ := Walk.runs_lift.1 hlift
  cases closed with
  | false => exact (Walk.runs_throw h).elim
  | true =>
    obtain ⟨v, _, hlift, h⟩ := Walk.runs_bind.1 h
    obtain ⟨hvalue, rfl⟩ := Walk.runs_lift.1 hlift
    refine ⟨v, hclosed, hvalue, ?_⟩
    -- An empty list, one without `null`, one of nothing but `null`, and one with `null` and others.
    by_cases hempty : v.toList = []
    · rw [hempty] at h
      obtain ⟨rfl, rfl⟩ := Walk.runs_pure.1 h
      refine .inl ⟨hempty, rfl, fun db row => ?_⟩
      cases s.negated <;>
        simp [Term.truth, Term.operation, Term.eval, Sql.Database.binary, Sql.Operator.ordering?,
          Sql.Database.compareBy, Value.isNull, db.compare_int] <;> rfl
    rw [if_neg (by rwa [List.isEmpty_iff])] at h
    obtain ⟨item, t₁, hitem, h⟩ := Walk.runs_bind.1 h
    obtain ⟨list, _, hlift, h⟩ := Walk.runs_bind.1 h
    obtain ⟨hlist, rfl⟩ := Walk.runs_lift.1 hlift
    have hinList : ∀ (m : Source) row, (Term.inList item list s.negated).truth m.db row =
        (m.db.isIn (item.eval m.db row) (v.toList.filter fun v => !v.isNull)).negateIf
          s.negated := by
      intro m row
      rw [Term.truth, Term.eval, evalAll_literalsOf _ _ hlist, Truth.ofValue_toValue]
    by_cases hnull : v.toList.any Value.isNull = true
    · rw [if_neg (by simp [hnull])] at h
      by_cases hlistEmpty : list.isEmpty = true
      · rw [if_pos hlistEmpty] at h
        obtain ⟨rfl, rfl⟩ := Walk.runs_pure.1 h
        refine .inr ⟨item, hitem, fun m row => ?_⟩
        have hfilter : (v.toList.filter fun v => !v.isNull) = [] := by
          rw [← evalAll_literalsOf m.db row hlist, List.isEmpty_iff.1 hlistEmpty]
          rfl
        rw [isIn_filter, hfilter, if_pos hnull, Sql.Database.isIn, Truth.no_or,
          Sql.Term.truth_isNull]
      · rw [if_neg hlistEmpty] at h
        obtain ⟨rfl, rfl⟩ := Walk.runs_pure.1 h
        refine .inr ⟨item, hitem, fun m row => ?_⟩
        rw [isIn_filter, if_pos hnull]
        exact Sql.Term.truth_logical (.inr rfl) (hinList m row) Sql.Term.truth_isNull
    · rw [if_pos (by simpa using hnull)] at h
      obtain ⟨rfl, rfl⟩ := Walk.runs_pure.1 h
      refine .inr ⟨item, hitem, fun m row => ?_⟩
      rw [hinList, isIn_filter, if_neg hnull, Truth.or_no]

/-- The membership in a list of constants. -/
theorem inList_means {collection : Expr} {walkItem : Walk Term} {item : Value}
    {values : List Value} (hcollection : collection.constantList? = some values)
    (hitem : walkItem.Yields (m.Starts c) (m.Reads item)) :
    (c.inList s collection walkItem).Yields (m.Starts c)
      (m.Means ((m.isIn item values).negateIf s.negated)) := by
  intro t a t' ht ha
  obtain ⟨v, -, hvalue, hmembership⟩ := inList_runs ha
  rw [Evaluator.evaluate_of_constantList? hcollection] at hvalue
  obtain rfl := Except.ok.inj hvalue
  rcases hmembership with ⟨hempty, rfl, htruth⟩ | ⟨b, hb, htruth⟩
  · obtain rfl : values = [] := hempty
    exact ⟨JoinTree.Extends.refl t, ht, fun T _ => htruth m.db _⟩
  · obtain ⟨hext, ht', hreads⟩ := hitem t b t' ht hb
    refine ⟨hext, ht', fun T hT => ?_⟩
    rw [htruth m, hreads T hT]
    rfl

/-! ### Predicates -/

/-- A list of constants is closed, and a chain of members of a parameter is not. -/
theorem areClosed_pair {collection item : Expr} {values : List Value} {root : Model}
    {catalog : Catalog} {found : List String × String}
    (hcollection : collection.constantList? = some values)
    (hitem : catalog.column? root item = some found) :
    Expr.areClosed [collection, item] = .ok false := by
  obtain ⟨first, rest, p, last, hmembers, -⟩ := Catalog.column?_eq_some.1 hitem
  rw [Expr.areClosed, Expr.isClosed_of_constantList? hcollection, Expr.areClosed,
    Expr.isClosed_of_members? hmembers]
  rfl

theorem closedOr_of_open {w : Walk Term} (h : e.isClosed = .ok false) : c.closedOr s e w = w := by
  rw [closedOr, h]
  rfl

theorem asCondition_yields_of_handles {w : Walk Term} {x : Truth}
    (he : e.handlesNegation = .ok true) (h : w.Yields (m.Starts c) (m.Means x)) :
    (asCondition s e w).Yields (m.Starts c) (m.Means x) := by
  unfold asCondition
  rw [he]
  refine Walk.Yields.bind Source.means_stable h fun a => Walk.Yields.ite (fun _ => ?_) fun _ => ?_
  · exact Walk.Yields.pure fun t ha => ha
  · exact Walk.Yields.pure fun t ha => ha

theorem asCondition_yields_of_wraps {w : Walk Term} {x : Truth}
    (he : e.handlesNegation = .ok false) (h : w.Yields (m.Starts c) (m.Means x)) :
    (asCondition s e w).Yields (m.Starts c) (m.Means (x.negateIf s.negated)) := by
  unfold asCondition
  rw [he]
  refine Walk.Yields.bind Source.means_stable h fun a => ?_
  refine Walk.Yields.ite (fun hnegated => ?_) fun hnegated => ?_
  · rw [hnegated]
    exact Walk.Yields.pure fun t ha => ha.not
  · rw [Bool.not_eq_true] at hnegated
    rw [hnegated]
    exact Walk.Yields.pure fun t ha => ha

/-- A predicate becomes a condition with its truth value, negated under an odd number of
negations. -/
theorem condition_means {e : Expr} (he : e.IsPredicate m.catalog m.root) (s : Scope)
    (hs : s.pending = []) : (c.condition s e).Yields (m.Starts c)
      (m.Means ((m.kleene e).negateIf s.negated)) := by
  induction he generalizing s with
  | @logical op left right hop _ _ ihleft ihright =>
    refine asCondition_yields_of_handles (by rw [Expr.handlesNegation, hop]; rfl) ?_
    rw [term, withMembers_nil hs]
    cases op with
    | and | or =>
      refine Walk.Yields.bind Source.means_stable (ihleft s.isolated rfl) fun a => ?_
      refine Walk.Yields.bind Source.means_stable (ihright s.isolated rfl) fun b => ?_
      exact Walk.Yields.pure fun t hb ha => Source.Means.logical (by decide) ha hb
    | _ => cases hop
  | @not operand _ ih =>
    refine asCondition_yields_of_handles rfl ?_
    rw [term, withMembers_nil hs, Source.kleene, Truth.negateIf_not]
    exact ih s.isolated.inverted rfl
  | convert _ ih => exact ih s hs
  | @conditional test ifTrue ifFalse _ _ _ ihtest ihTrue ihFalse =>
    refine asCondition_yields_of_handles rfl ?_
    rw [term, withMembers_nil hs, Source.kleene]
    refine Walk.Yields.bind Source.means_stable (ihtest s.isolated.neutral rfl) fun a => ?_
    refine Walk.Yields.bind Source.means_stable (ihTrue s.isolated rfl) fun b => ?_
    refine Walk.Yields.bind Source.means_stable (ihFalse s.isolated rfl) fun d => ?_
    exact Walk.Yields.pure fun t hd hb ha => ha.conditional hb hd
  | @comparison op left right hop hleft hright =>
    obtain ⟨operator, hoperator, hlogical, hkleene⟩ : ∃ operator,
        Sql.Operator.ofBinary? op = some operator ∧ op.isLogical = false ∧
        m.kleene (.binary op left right) = m.comparison op left right := by
      cases op <;> cases hop <;> exact ⟨_, rfl, rfl, rfl⟩
    refine asCondition_yields_of_handles (by rw [Expr.handlesNegation, hop, Bool.or_true]; rfl) ?_
    rw [term, withMembers_nil hs, hoperator, hkleene]
    simp only [hlogical, hop, if_true, Bool.false_eq_true, if_false]
    -- Operands are walked under no negation, but the operator is written under those of the scope.
    exact comparison_yields_kleene s.negated hop hoperator (isProvablyNull_of_isOperand hleft)
      (isProvablyNull_of_isOperand hright) (operand_yields rfl hleft) (operand_yields rfl hright)
  | @column e he =>
    obtain ⟨⟨path, column⟩, he⟩ := Option.isSome_iff_exists.1 he
    obtain ⟨first, rest, p, last, hmembers, -⟩ := Catalog.column?_eq_some.1 he
    rw [Source.kleene_of_column? e he]
    refine asCondition_yields_of_wraps (Expr.handlesNegation_of_members? hmembers) ?_
    exact (column_yields hs he).mono fun t a ha => ha.means
  | @constant type b =>
    refine asCondition_yields_of_wraps rfl ?_
    intro t a t' ht ha
    have hvalue : (Expr.constant type (.bool b)).constant? = some (.bool b) := rfl
    obtain ⟨rfl, rfl⟩ := term_of_constant? hs hvalue ha
    exact ⟨JoinTree.Extends.refl t, ht, fun T _ => by rw [Term.truth, Term.eval, Source.kleene]⟩
  | @hasValue owner type he =>
    obtain ⟨⟨path, column⟩, he⟩ := Option.isSome_iff_exists.1 he
    rw [Source.kleene_hasValue he]
    refine asCondition_yields_of_wraps rfl ?_
    refine (hasValue_yields hs he).mono fun t a ha => ?_
    rw [← Truth.ofValue_toValue (x := .ofBool _)]
    exact ha.means
  | @staticContains method collection item hmethod hcollection hitem =>
    obtain ⟨values, hcollection⟩ := Option.isSome_iff_exists.1 hcollection
    obtain ⟨⟨path, column⟩, hitem⟩ := Option.isSome_iff_exists.1 hitem
    have hopen : (Expr.staticCall method [collection, item]).isClosed = .ok false :=
      areClosed_pair hcollection hitem
    have hhandles : (Expr.staticCall method [collection, item]).handlesNegation = .ok true := by
      rw [Expr.handlesNegation, if_pos (Method.isSome_anchor?_of_contains hmethod.1), hopen]
      rfl
    refine asCondition_yields_of_handles hhandles ?_
    rw [term, withMembers_nil hs, closedOr_of_open hopen, if_pos hmethod, Source.kleene,
      hcollection, Source.operand_of_column? hitem]
    exact inList_means hcollection (column_yields rfl hitem)
  | @contains method collection item hmethod hcollection hitem =>
    obtain ⟨values, hcollection⟩ := Option.isSome_iff_exists.1 hcollection
    obtain ⟨⟨path, column⟩, hitem⟩ := Option.isSome_iff_exists.1 hitem
    have hopen : (Expr.call collection method [item]).isClosed = .ok false :=
      areClosed_pair hcollection hitem
    have hhandles : (Expr.call collection method [item]).handlesNegation = .ok true := by
      rw [Expr.handlesNegation, if_pos (Method.isSome_anchor?_of_contains hmethod.1), hopen]
      rfl
    refine asCondition_yields_of_handles hhandles ?_
    rw [term, withMembers_nil hs, closedOr_of_open hopen, callWithArg, if_pos hmethod,
      Source.kleene, hcollection, Source.operand_of_column? hitem]
    exact inList_means hcollection (column_yields rfl hitem)

end Context

/-! ### Filters -/

/-- The filter of a query means the predicate that it was built from. Every column is read at the
end of the path that the alias of its table was joined by: the root has the empty path, and the
path of a join is that of the table it is joined to and one property more. -/
theorem Compiler.filter_spec {c : Compiler} {r : Request} {q : Sql.Query} {p : Param} {body : Expr}
    {root : Model} (hroot : c.context.catalog.find? r.model = some root)
    (hfilter : r.filter = some (.lambda [p] body))
    (hbody : body.IsPredicate c.context.catalog root) (hq : c.build r = .ok q) :
    (q.aliasName = (c.joinTree r).aliasOf 0 ∧ q.joins = (c.joinTree r).joins) ∧
    ((c.joinTree r).pathOf 0 = [] ∧
      ∀ (i : Nat) (b : Branch), (c.joinTree r).branches[i]? = some b →
        (c.joinTree r).pathOf (i + 1) = (c.joinTree r).pathOf b.parent ++ [b.property]) ∧
    ∃ filter, q.filter = some filter ∧
      ∀ (db : Sql.Database) (values : List String → String → Value),
        filter.truth db ((c.joinTree r).row values) =
          Source.kleene { catalog := c.context.catalog, root, db, values } body := by
  obtain ⟨-, hbuilt⟩ := builtOver_of_build hq
  refine ⟨⟨hbuilt.aliasName, hbuilt.joins⟩, ⟨JoinTree.pathOf_root _,
    fun i b hb => JoinTree.pathOf_branch hbuilt.rooted hb⟩, ?_⟩
  -- The filter was built over a tree that the tree of the whole query extends.
  obtain ⟨root', t, hroot', hrun, hext⟩ := filter_of_build hq
  rw [Context.model_eq_ok, hroot] at hroot'
  obtain rfl := Option.some.inj hroot'
  rw [hfilter, runs_filter_lambda] at hrun
  obtain ⟨a, ha, hfilter⟩ := hrun
  refine ⟨a.unparenthesized, hfilter, fun db values => ?_⟩
  have hstart : Source.Starts { catalog := c.context.catalog, root, db, values } c.context
      (.ofModel root c.aliasStem) := by
    refine ⟨rfl, ?_, JoinTree.isRooted_ofModel _ _⟩
    rw [JoinTree.ofModel, Catalog.name_of_find? hroot]
    exact hroot
  obtain ⟨-, -, hmeans⟩ := Context.condition_means hbody (Scope.over p) rfl _ _ _ hstart ha
  rw [Sql.Term.truth_unparenthesized]
  exact hmeans _ hext

namespace Compiler

/-- The predicate that a person is not active, or has a friend of at most three. -/
def samplePredicate : Expr :=
  .unary .not (.binary .and (.memberOf (.param "p" "Person") "IsActive")
    (.binary .greater (.memberOf (.memberOf (.param "p" "Person") "Friend") "Age")
      (.ofValue (.int 3))))

/-- The number of people of that kind. -/
def sampleRequest : Request where
  model := "Person"
  select := .count
  filter := some (.lambda [⟨"p", "Person"⟩] samplePredicate)

/-- The age of a friend is read at the end of the path to the friend. -/
theorem filter_spec_sample :
    let filter : Term := .binary (.not (.column "t0" "IsActive")) .or
      (.operation (.column "t1" "Age") .lessOrEqual (.literal (.int 3))) false
    ∀ (db : Sql.Database) (values : List String → String → Value),
      filter.truth db ((sample.joinTree sampleRequest).row values) =
        Source.kleene { catalog := sample.context.catalog, root := samplePerson, db, values }
          samplePredicate := by
  intro filter
  have hroot : sample.context.catalog.find? sampleRequest.model = some samplePerson := rfl
  have hbody : samplePredicate.IsPredicate sample.context.catalog samplePerson :=
    .not (.logical rfl (.column rfl) (.comparison rfl (.inl rfl) (.inr rfl)))
  obtain ⟨-, -, filter', hfilter', hspec⟩ := filter_spec hroot rfl hbody rfl
  obtain rfl : filter = filter' := Option.some.inj hfilter'
  exact hspec

end Compiler

end PredicateSql
