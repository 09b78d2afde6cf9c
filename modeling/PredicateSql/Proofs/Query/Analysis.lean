import PredicateSql.Query.Terms

/-!
# What is known of an expression before it is a term

Facts about the tests that are made before a term is written: comparisons with `null`, methods that
look for something, and functions of SQL.
-/

namespace PredicateSql

/-- The operator compares two operands for equality. Next to `null`, it is written as a test. -/
def Sql.Operator.isEquality : Sql.Operator → Bool
  | .equals | .notEquals => true
  | _ => false

/-- The test for `null` that stands for a comparison with something `null`. -/
def Sql.Operator.asNullTest? : Sql.Operator → Option Sql.Operator
  | .equals => some .equalsNull
  | .notEquals => some .notEqualsNull
  | _ => none

/-- A computation succeeds where its first step and what follows from it do. -/
theorem bind_eq_ok {ε α β : Type} {x : Except ε α} {f : α → Except ε β} {b : β} :
    (x >>= f) = .ok b ↔ ∃ a, x = .ok a ∧ f a = .ok b := by
  cases x with
  | error e => simp [bind, Except.bind]
  | ok a => simp [bind, Except.bind]

theorem ok_bind {ε α β : Type} (a : α) (f : α → Except ε β) : (Except.ok a >>= f) = f a :=
  rfl

theorem error_bind {ε α β : Type} (e : ε) (f : α → Except ε β) :
    (Except.error e >>= f) = .error e :=
  rfl

/-! ### Methods and properties -/

theorem Method.anchor?_contains {method : Method} (h : method.known? = some .contains) :
    method.anchor? ≠ none := by
  rw [anchor?, h]
  exact Option.some_ne_none _

theorem Method.isSome_anchor?_of_contains {method : Method} (h : method.known? = some .contains) :
    method.anchor?.isSome = true :=
  Option.isSome_iff_ne_none.2 (Method.anchor?_contains h)

theorem Method.function?_mem {method : Method} {function : String}
    (h : method.function? = some function) : function ∈ ["UPPER", "LOWER", "TRIM"] := by
  rw [function?] at h
  split at h <;> simp_all

theorem Model.property_eq_ok {model : Model} {name : String} {p : Property} :
    model.property name = .ok p ↔ model.find? name = some p := by
  rw [Model.property]
  cases model.find? name with
  | none => simp [throw, throwThe, MonadExceptOf.throw]
  | some found => simp [pure, Except.pure]

/-! ### Literals -/

/-- A value stands for itself, or cannot stand in a statement. -/
theorem literalOf_cases (value : Value) : literalOf value = .ok (.literal value) ∨
    literalOf value = .error (.unrenderableValue value.typeName) := by
  unfold literalOf
  extract_lets renderable
  split
  · exact .inl rfl
  · exact .inr rfl

theorem literalOf_eq_ok {value : Value} {a : Sql.Term} (h : literalOf value = .ok a) :
    a = .literal value := by
  rcases literalOf_cases value with hvalue | herr
  · exact Except.ok.inj (h.symm.trans hvalue)
  · cases h.symm.trans herr

theorem literalsOf_cons_eq_ok {value : Value} {rest : List Value} {list : List Sql.Term}
    (h : literalsOf (value :: rest) = .ok list) :
    ∃ a terms, literalOf value = .ok a ∧ literalsOf rest = .ok terms ∧ list = a :: terms := by
  rw [literalsOf] at h
  obtain ⟨a, ha, h⟩ := bind_eq_ok.1 h
  obtain ⟨terms, hterms, h⟩ := bind_eq_ok.1 h
  exact ⟨a, terms, ha, hterms, (Except.ok.inj h).symm⟩

/-- Literals are written for the values as they are. -/
theorem literalsOf_eq_ok {values : List Value} {list : List Sql.Term}
    (h : literalsOf values = .ok list) :
    (∀ v ∈ values, literalOf v = .ok (.literal v)) ∧ list = values.map .literal := by
  induction values generalizing list with
  | nil =>
    obtain rfl := Except.ok.inj h
    exact ⟨nofun, rfl⟩
  | cons value rest ih =>
    obtain ⟨a, terms, ha, hterms, rfl⟩ := literalsOf_cons_eq_ok h
    obtain ⟨hrest, rfl⟩ := ih hterms
    obtain rfl := literalOf_eq_ok ha
    exact ⟨List.forall_mem_cons.2 ⟨ha, hrest⟩, rfl⟩

/-! ### Members -/

/-- What holds of a term, and is passed on to its length and to the test whether it has a value,
holds of the term with members taken of it. -/
theorem scalarMembers_induction {P : Sql.Term → Prop} {members : List String} {a b : Sql.Term}
    {type : ValueType} (h : scalarMembers a type members = .ok b) (ha : P a)
    (hlength : ∀ x, P x → P (.call "LENGTH" [x]))
    (hnull : ∀ x, P x → P (.isNull x .notEqualsNull)) : P b := by
  induction members generalizing a type with
  | nil =>
    obtain rfl := Except.ok.inj h
    exact ha
  | cons member rest ih =>
    rw [scalarMembers] at h
    split at h
    · exact ih h (hlength a ha)
    · split at h
      · exact ih h ha
      · split at h
        · exact ih h (hnull a ha)
        · cases h

namespace Context

variable {c : Context} {s : Scope}

/-- The type of a call is known only of methods that look for nothing. -/
theorem anchor?_eq_none {method : Method} {args : List Expr} {type : ValueType}
    (h : c.staticType? s (.staticCall method args) = some type) : method.anchor? = none := by
  rw [Method.anchor?]
  rw [staticType?] at h
  cases hknown : method.known? with
  | none => rfl
  | some known => cases known <;> simp_all

/-- Of all that lies around an expression, only the bound parameters matter to its type. -/
theorem staticType?_congr {V : Type} (c : Context V) {s s' : Scope} (hs : s.binders = s'.binders) :
    ∀ e : Expr, c.staticType? s e = c.staticType? s' e
  | .param name _ => by rw [staticType?, staticType?, Scope.modelFor?, Scope.modelFor?, hs]
  | .unary .convert operand => c.staticType?_congr hs operand
  | .conditional _ ifTrue _ => c.staticType?_congr hs ifTrue
  | .member owner _ _ => by rw [staticType?, staticType?, c.staticType?_congr hs owner]
  | .binary op left right => by
    cases op with
    | add => rw [staticType?, staticType?, c.staticType?_congr hs left, c.staticType?_congr hs right]
    | _ => rfl
  | .constant .. | .unary .not _ | .unary .negate _ | .staticMember .. | .call ..
  | .staticCall .. | .new .. | .array .. | .lambda .. => rfl

theorem staticType?_of_binders {binders : List (String × String)} (hs : s.binders = binders)
    (e : Expr) : c.staticType? s e = c.staticType? { binders } e :=
  c.staticType?_congr hs e

/-! ### Values of closed subtrees -/

theorem boundary_eq {e : Expr} :
    c.boundary s e = c.evaluator.evaluate e >>= fun value => drill value s.pending := by
  rw [boundary, ClosedEvaluator.evaluate_standard]

theorem boundary_isolated {e : Expr} : c.boundary s.isolated e = c.evaluator.evaluate e := by
  rw [boundary_eq]
  cases c.evaluator.evaluate e <;> rfl

/-- The owner of a member has that value under the member which the member has itself. -/
theorem boundary_member {owner : Expr} {type name : String} :
    c.boundary s (.member owner type name) = c.boundary (s.withMember name) owner := by
  rw [boundary_eq, boundary_eq, Evaluator.evaluate]
  cases c.evaluator.evaluate owner <;> rfl

theorem boundary_convert {operand : Expr} :
    c.boundary s (.unary .convert operand) = c.boundary s operand := by
  rw [boundary_eq, boundary_eq, Evaluator.evaluate]
  cases c.evaluator.evaluate operand <;> rfl

/-! ### Names -/

theorem model_eq_ok {name : String} {model : Model} :
    c.model name = .ok model ↔ c.catalog.find? name = some model := by
  rw [Context.model]
  cases c.catalog.find? name with
  | none => simp [throw, throwThe, MonadExceptOf.throw]
  | some found => simp [pure, Except.pure]

/-! ### Comparisons with null -/

theorem isClosedNull_eq {e : Expr} : c.isClosedNull e = do
    if ← e.isClosed then return (← c.evaluator.evaluate e).isNull else return false := by
  rw [isClosedNull, ClosedEvaluator.evaluate_standard]

/-- Of two operands that are certain to be `null`, the left one is left out. -/
theorem nullTest?_eq_ok {op : Sql.Operator} {left right : Expr} {l r : Bool}
    (hl : c.isProvablyNull left = .ok l) (hr : c.isProvablyNull right = .ok r) :
    c.nullTest? op left right = .ok (op.asNullTest?.bind fun test =>
      if l then some (true, test) else if r then some (false, test) else none) := by
  unfold nullTest?
  rw [hl, hr]
  cases op <;> cases l <;> cases r <;> rfl

theorem nullTest?_invert {op : Sql.Operator} {left right : Expr} :
    c.nullTest? op.invert left right =
      (c.nullTest? op left right).map (Option.map fun x => (x.1, x.2.invert)) := by
  unfold nullTest?
  cases op <;> try rfl
  all_goals
    simp only [Sql.Operator.invert]
    cases c.isProvablyNull left with
    | error err => rfl
    | ok leftIsNull =>
      cases leftIsNull with
      | true => rfl
      | false =>
        cases c.isProvablyNull right with
        | error err => rfl
        | ok rightIsNull => cases rightIsNull <;> rfl

theorem nullTest?_operator {op test : Sql.Operator} {left right : Expr} {leftIsNull : Bool}
    (h : c.nullTest? op left right = .ok (some (leftIsNull, test))) :
    test = .equalsNull ∨ test = .notEqualsNull := by
  unfold nullTest? at h
  cases op <;> try cases h
  all_goals
    obtain ⟨b, -, h⟩ := bind_eq_ok.1 h
    cases b with
    | true =>
      cases h
      simp
    | false =>
      obtain ⟨b', -, h⟩ := bind_eq_ok.1 h
      cases b' with
      | true =>
        cases h
        simp
      | false => cases h

/-- Two operands are compared for equality only if none of them is certain to be `null`. -/
theorem isProvablyNull_of_nullTest? {op : Sql.Operator} {left right : Expr}
    (hop : op.isEquality = true) (h : c.nullTest? op left right = .ok none) :
    c.isProvablyNull left = .ok false ∧ c.isProvablyNull right = .ok false := by
  unfold nullTest? at h
  cases op <;> try cases hop
  all_goals
    obtain ⟨b, hleft, h⟩ := bind_eq_ok.1 h
    cases b with
    | true => cases h
    | false =>
      obtain ⟨b', hright, h⟩ := bind_eq_ok.1 h
      cases b' with
      | true => cases h
      | false => exact ⟨hleft, hright⟩

end Context

end PredicateSql
