import PredicateSql.Proofs.Evaluation.Equality
import PredicateSql.Proofs.Query.Nulls
import PredicateSql.Proofs.Query.Places
import PredicateSql.Proofs.Query.Predicate
import PredicateSql.Proofs.Query.Properties

/-!
# Membership in a closed collection

Whether a column is in a collection is asked in SQL, and whether a value is in it can be evaluated.
Both are told from the elements, but the list in SQL is written without those that are `null`.

* `Expr.membership`: the question, as a method of a type or of the collection.
* `Database.Equates`: a database that compares values for equality like the evaluator.
* `Source.isIn_eq_yes`: what a list in SQL says of its elements.
* `Context.noColumn_of_closed`: what becomes a column depends on the row, so a question about a
  column is not evaluated as a whole. The induction is on the expression.
* `Context.membership_spec`: the condition of a membership holds on the rows whose column the same
  question is answered with `true` for.
-/

namespace PredicateSql

open Sql (Term)

/-! ### The question -/

/-- The question whether a collection contains an item, asked by a method of a type or of the
collection. -/
def Expr.membership (ofType : Bool) (method : Method) (collection item : Expr) : Expr :=
  if ofType then .staticCall method [collection, item] else .call collection method [item]

/-- The method asks whether a sequence contains an item. -/
def Method.IsMembership (method : Method) : Prop :=
  method.known? = some .contains ∧ method.declaringType.isSequence = true

/-- The database compares values that are not `NULL` for equality like the evaluator. -/
def Sql.Database.Equates (db : Sql.Database) : Prop :=
  ∀ a b : Value, a.isNull = false → b.isNull = false →
    db.compareBy (· == .eq) a b = .ofBool (a.equals b)

namespace Sql.Database

/-- A database that compares values like the evaluator, and computes nothing else of them. -/
def equating : Database :=
  { (default : Database) with
    compare
      | .int a, .int b => some (Ord.compare a.toInt b.toInt)
      | a, b => some (if a.equals b then .eq else .lt)
    compare_int := fun _ _ => rfl }

theorem equates_equating : equating.Equates := by
  intro a b ha hb
  obtain ⟨order, hcompare, horder⟩ :
      ∃ order, equating.compare a b = some order ∧ (order == .eq) = a.equals b := by
    unfold equating
    dsimp only
    split
    · refine ⟨_, rfl, ?_⟩
      show _ = (_ == _)
      rw [Bool.eq_iff_iff, beq_iff_eq, beq_iff_eq, compare_eq_iff_eq, Int64.toInt_inj]
    · refine ⟨_, rfl, ?_⟩
      cases a.equals b <;> rfl
  rw [compareBy, ha, hb, hcompare]
  exact congrArg Truth.ofBool horder

end Sql.Database

/-! ### Lists in SQL -/

theorem Truth.ofBool_eq_yes {b : Bool} : Truth.ofBool b = .yes ↔ b = true := by
  cases b <;> simp [ofBool]

theorem Truth.or_eq_yes {x y : Truth} : x.or y = .yes ↔ x = .yes ∨ y = .yes := by
  cases x <;> cases y <;> simp [or]

theorem Value.equals_of_isNull {a b : Value} (ha : a.isNull = true) : a.equals b = b.isNull := by
  cases a with
  | null => cases b <;> rfl
  | _ => cases ha

/-- Something that is not `null` is equal to an item if SQL compares them so. -/
theorem Sql.Database.Equates.compareBy_eq_yes {db : Sql.Database} (hdb : db.Equates)
    {item v : Value} (hv : v.isNull = false) :
    db.compareBy BinaryOp.equal.holds item v = .yes ↔ v.equals item = true := by
  by_cases hitem : item.isNull = true
  · rw [Value.equals_comm, Value.equals_of_isNull hitem, hv]
    simp [compareBy, hitem]
  · rw [Bool.not_eq_true] at hitem
    rw [Value.equals_comm v, ← Truth.ofBool_eq_yes, ← hdb item v hitem hv]
    rfl

/-- An item is in a list if it is equal to one of the elements. Only `null` is equal to `null`. -/
theorem Source.isIn_eq_yes {m : Source} (hdb : m.db.Equates) (item : Value) (values : List Value) :
    m.isIn item values = .yes ↔ ∃ v ∈ values, v.equals item = true := by
  induction values with
  | nil => simp [isIn]
  | cons v rest ih =>
    have hequal : (if v.isNull then Truth.ofBool item.isNull
        else m.db.compareBy BinaryOp.equal.holds item v) = .yes ↔ v.equals item = true := by
      by_cases hv : v.isNull = true
      · rw [if_pos hv, Truth.ofBool_eq_yes, Value.equals_of_isNull hv]
      · rw [if_neg hv]
        exact hdb.compareBy_eq_yes (Bool.eq_false_of_not_eq_true hv)
    rw [isIn, Truth.or_eq_yes, hequal, ih, List.exists_mem_cons_iff]

/-! ### The question evaluated -/

namespace Evaluator

variable {v : Evaluator} {method : Method} {collection : Expr}

/-- What the question comes to, asked of values. -/
theorem evaluate_membership_list {items : List Value} (ofType : Bool)
    (hmethod : method.IsMembership) (hvalue : v.evaluate collection = .ok (.list items))
    (type : ValueType) (item : Value) :
    v.evaluate (.membership ofType method collection (.constant type item)) =
      .ok (.bool (items.any (·.equals item))) := by
  cases ofType <;>
    simp [Expr.membership, evaluate, evaluateAll, meaning, hmethod.1, hmethod.2, hvalue, callOn,
      callStatic, containsItem, failing, bind, Except.bind, pure, Except.pure, Except.mapError]

/-- A method of a type asks for nothing but lists. -/
theorem evaluate_membership_ofType {value : Value} (hmethod : method.IsMembership)
    (hvalue : v.evaluate collection = .ok value) (hlist : ∀ items, value ≠ .list items)
    (type : ValueType) (item : Value) :
    v.evaluate (.membership true method collection (.constant type item)) =
      .error (.evaluation (.sequenceExpected value)) := by
  have hcontains : containsItem value item = .error (.sequenceExpected value) := by
    cases value with
    | list items => exact absurd rfl (hlist items)
    | _ => rfl
  simp [Expr.membership, evaluate, evaluateAll, meaning, hmethod.1, hmethod.2, hvalue,
      callStatic, hcontains, failing, bind, Except.bind, pure, Except.pure, Except.mapError]

end Evaluator

/-! ### Closed expressions -/

/-- The walk does not find a bare column. -/
def Walk.NoColumn (w : Walk Term) : Prop :=
  w.Always (·.isColumn = false)

namespace Context

variable {c : Context} {s : Scope} {e : Expr} {w : Walk Term} {t t' t'' : JoinTree} {a : Term}
  {table name : String}

theorem literal_noColumn : (liftM (c.literal s e) : Walk Term).NoColumn := by
  intro t a t' h
  obtain ⟨v, -, h⟩ := bind_eq_ok.1 (Walk.runs_lift.1 h).1
  obtain rfl := literalOf_eq_ok h
  rfl

theorem asCondition_noColumn (hw : w.NoColumn) : (asCondition s e w).NoColumn :=
  hw.bind fun _ ha => .ite (.after fun _ => .ite (.pure ha) (.pure rfl)) (.pure ha)

/-- With members waiting for its value, the node is a literal. -/
theorem withMembers_noColumn (hclosed : e.isClosed = .ok true) (hw : w.NoColumn) :
    (c.withMembers s e w).NoColumn := by
  by_cases hpending : s.pending = []
  · rwa [withMembers_nil hpending]
  · rw [withMembers_of_not_open (by simp [hclosed]) hpending, closedLiteral_of_closed hclosed]
    exact literal_noColumn

theorem noColumn_of_isWhole (hwhole : e.isWhole = true) (hclosed : e.isClosed = .ok true) :
    (c.term s e).NoColumn := by
  rw [term_of_isWhole hwhole (by simp [hclosed]), closedLiteral_of_closed hclosed]
  exact literal_noColumn

/-- Without a parameter, there is no table that a column could be of. -/
theorem noColumn_of_closed : ∀ (e : Expr) (s : Scope), e.isClosed = .ok true →
    (c.term s e).NoColumn
  | .constant .., _, _ => literal_noColumn
  | .param .., _, hclosed | .lambda .., _, hclosed => nomatch hclosed
  | .unary .convert operand, s, hclosed => noColumn_of_closed operand s hclosed
  | .unary .not operand, s, hclosed =>
    withMembers_noColumn hclosed (asCondition_noColumn (noColumn_of_closed operand _ hclosed))
  | .unary .negate _, _, hclosed => withMembers_noColumn hclosed (.after fun _ => .pure rfl)
  | .binary op left right, s, hclosed => by
    cases hop : Sql.Operator.ofBinary? op with
    | none =>
      obtain rfl : op = .index := by cases op <;> first | rfl | cases hop
      exact noColumn_of_isWhole rfl hclosed
    | some operator =>
      rw [term, hop]
      refine withMembers_noColumn hclosed (.ite ?_ (.ite ?_ ?_))
      · exact .after fun a => .after fun b => .pure rfl
      · exact comparison_always (fun _ _ => rfl) fun _ _ _ => rfl
      · exact arithmetic_always (fun _ => rfl) fun _ _ _ => rfl
  | .conditional .., _, hclosed =>
    withMembers_noColumn hclosed (.after fun _ => .after fun _ => .after fun _ => .pure rfl)
  | .staticMember .., _, hclosed | .member .., _, hclosed | .call .., _, hclosed
  | .staticCall .., _, hclosed | .new .., _, hclosed | .array .., _, hclosed =>
    noColumn_of_isWhole rfl hclosed

theorem not_closed_of_column (h : (c.term s e).Runs t (.column table name) t') :
    e.isClosed ≠ .ok true :=
  fun hclosed => nomatch noColumn_of_closed e s hclosed _ _ _ h

/-! ### The question in SQL -/

theorem isClosed_membership {ofType : Bool} {method : Method} {collection item : Expr} :
    (Expr.membership ofType method collection item).isClosed =
      (do if ← collection.isClosed then item.isClosed else return false) := by
  cases ofType with
  | true =>
    rw [Expr.membership, if_pos rfl, Expr.isClosed, Expr.areClosed, Expr.areClosed_singleton]
  | false =>
    rw [Expr.membership, if_neg Bool.false_ne_true, Expr.isClosed, Expr.areClosed_singleton]

theorem term_membership {ofType : Bool} {method : Method} {collection item : Expr}
    (hs : s.pending = []) (hmethod : method.IsMembership) :
    c.term s (.membership ofType method collection item) =
      c.closedOr s (.membership ofType method collection item)
        (c.inList s collection (c.term s.isolated.neutral item)) := by
  have hcondition : method.known? = some .contains ∧ method.declaringType.isSequence = true :=
    hmethod
  cases ofType with
  | true =>
    rw [Expr.membership, if_pos rfl, term, withMembers_nil hs, if_pos hcondition]
  | false =>
    rw [Expr.membership, if_neg Bool.false_ne_true, term, withMembers_nil hs, callWithArg,
      if_pos hcondition]

/-- A question about a column is made a condition. -/
theorem inList_of_membership {ofType : Bool} {method : Method} {collection item : Expr}
    (hs : s.pending = []) (hmethod : method.IsMembership)
    (hitem : (c.term s.isolated.neutral item).Runs t (.column table name) t')
    (h : (c.term s (.membership ofType method collection item)).Runs t a t'') :
    (c.inList s collection (c.term s.isolated.neutral item)).Runs t a t'' := by
  have hnot := not_closed_of_column hitem
  rw [term_membership hs hmethod, closedOr, isClosed_membership] at h
  rcases hcollection : collection.isClosed with err | _ | _
  · rw [hcollection] at h
    exact (Walk.runs_throw h).elim
  · rwa [hcollection] at h
  · rcases hclosed : item.isClosed with err | _ | _
    · rw [hcollection, hclosed] at h
      exact (Walk.runs_throw h).elim
    · rwa [hcollection, hclosed] at h
    · exact absurd hclosed hnot

/-- A question about a column, under no negation, is `true` on a row in SQL if the column is equal
to an element of the collection; a collection that is no list is its own only element. For a list,
and any value in the place of the column, the evaluator answers the question too, and its answer is
the same. For any other collection, a method of a type gives no answer. -/
theorem membership_spec {db : Sql.Database} {ofType : Bool} {method : Method}
    {collection item : Expr} (hdb : db.Equates) (hmethod : method.IsMembership)
    (hs : s.pending = []) (hneutral : s.negated = false)
    (hitem : (c.term s.isolated.neutral item).Runs t (.column table name) t')
    (h : (c.term s (.membership ofType method collection item)).Runs t a t'') :
    ∃ v, c.evaluator.evaluate collection = .ok v ∧
      (∀ row, a.truth db row = .yes ↔ ∃ w ∈ v.toList, w.equals (row table name) = true) ∧
      (∀ items, v = .list items → ∀ type x, ∃ b,
        c.evaluator.evaluate (.membership ofType method collection (.constant type x)) =
            .ok (.bool b) ∧
          ∀ row, row table name = x → (a.truth db row = .yes ↔ b = true)) ∧
      ((∀ items, v ≠ .list items) → ofType = true → ∀ type x,
        c.evaluator.evaluate (.membership ofType method collection (.constant type x)) =
          .error (.evaluation (.sequenceExpected v))) := by
  let m : Source := { catalog := c.catalog, root := default, db, values := fun _ _ => .null }
  have hmdb : m.db.Equates := hdb
  obtain ⟨v, -, hvalue, hmembership⟩ := inList_runs (inList_of_membership hs hmethod hitem h)
  have htruth : ∀ row, a.truth db row = .yes ↔
      ∃ w ∈ v.toList, w.equals (row table name) = true := by
    intro row
    rw [hneutral] at hmembership
    rw [← Source.isIn_eq_yes hmdb]
    rcases hmembership with ⟨hempty, -, hno⟩ | ⟨b, hb, hisIn⟩
    · rw [hno db row, hempty]
      rfl
    · obtain ⟨rfl, -⟩ := hb.unique hitem
      have hrow : a.truth db row = m.isIn (row table name) v.toList := hisIn m row
      rw [hrow]
  refine ⟨v, hvalue, htruth, ?_, ?_⟩
  · rintro items rfl type x
    refine ⟨_, Evaluator.evaluate_membership_list ofType hmethod hvalue type x, ?_⟩
    rintro row rfl
    rw [htruth, List.any_eq_true]
    rfl
  · rintro hlist rfl type x
    exact Evaluator.evaluate_membership_ofType hmethod hvalue hlist type x

/-- An age that is 3 or missing. -/
theorem membership_spec_age :
    let method : Method := ⟨.enumerable, "Contains"⟩
    let collection : Expr := .array .unknown [.ofValue (.int 3), .ofValue .null]
    let age : Term := .column "t0" "Age"
    let a : Term := .operation (.inList age [.literal (.int 3)] false) .or (.isNull age .equalsNull)
    (Compiler.sample.context.term (Scope.over ⟨"p", "Person"⟩)
        (.membership true method collection (.memberOf (.param "p" "Person") "Age"))).Runs
          (.ofModel Compiler.samplePerson "t") a (.ofModel Compiler.samplePerson "t") ∧
      (∀ row, a.truth .equating row = .yes ↔
        ∃ w ∈ [Value.int 3, .null], w.equals (row "t0" "Age") = true) ∧
      ∀ x, ∃ b,
        Compiler.sample.context.evaluator.evaluate
            (.membership true method collection (.ofValue x)) = .ok (.bool b) ∧
          ∀ row, row "t0" "Age" = x → (a.truth .equating row = .yes ↔ b = true) := by
  intro method collection age a
  have hrun : (Compiler.sample.context.term (Scope.over ⟨"p", "Person"⟩)
      (.membership true method collection (.memberOf (.param "p" "Person") "Age"))).Runs
        (.ofModel Compiler.samplePerson "t") a (.ofModel Compiler.samplePerson "t") := rfl
  have hage : (Compiler.sample.context.term (Scope.over ⟨"p", "Person"⟩)
      (.memberOf (.param "p" "Person") "Age")).Runs
        (.ofModel Compiler.samplePerson "t") age (.ofModel Compiler.samplePerson "t") := rfl
  obtain ⟨v, hvalue, htruth, hevaluated, -⟩ :=
    membership_spec Sql.Database.equates_equating ⟨rfl, rfl⟩ rfl rfl hage hrun
  obtain rfl : Value.list [.int 3, .null] = v := Except.ok.inj hvalue
  exact ⟨hrun, htruth, fun x => hevaluated _ rfl _ x⟩

/-- The number 5 is taken for a list of one element in SQL, and is no sequence to the evaluator. -/
theorem membership_fails :
    let method : Method := ⟨.enumerable, "Contains"⟩
    let a : Term := .inList (.column "t0" "Id") [.literal (.int 5)] false
    (Compiler.sample.context.term (Scope.over ⟨"p", "Person"⟩)
        (.membership true method (.ofValue (.int 5)) (.memberOf (.param "p" "Person") "Id"))).Runs
          (.ofModel Compiler.samplePerson "t") a (.ofModel Compiler.samplePerson "t") ∧
      a.truth .equating (fun _ _ => .int 5) = .yes ∧
      Compiler.sample.context.evaluator.evaluate
          (.membership true method (.ofValue (.int 5)) (.ofValue (.int 5))) =
        .error (.evaluation (.sequenceExpected (.int 5))) := by
  intro method a
  exact ⟨rfl, rfl, rfl⟩

end Context

end PredicateSql
