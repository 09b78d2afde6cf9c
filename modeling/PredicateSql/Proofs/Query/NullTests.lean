import PredicateSql.Proofs.Evaluation.Equality
import PredicateSql.Proofs.Query.NormalForm
import PredicateSql.Proofs.Query.Nulls
import PredicateSql.Proofs.Query.ProvablyNull

/-!
# Comparisons with `null` from both sides

A comparison with the constant `null` becomes a test of its other operand. On the right, the
constant is found only after the operand was looked up, so the lookup may fail, or take the operand
for the one that is certain to be `null`. Then the constant is tested in its place.

* `Expr.valued?`: the subtree whose value stands for an expression, if that subtree is closed.
* `Context.AgreesOnNull`: the operand is not certain to be `null`, or it becomes what the lookup
  found.
* `Context.condition_of_valued?` and `Context.valued?_of_runs`: an operand becomes the literal
  `NULL` by the value of such a subtree, and in no other way. Both inductions are on the expression,
  for both signs, as a negation around a negation is not written.
* `Compiler.build_null_comm`: where the operands of a comparison with `null` may change places.
-/

namespace PredicateSql

open Sql (Term)

/-- A subtree of this kind becomes a literal if it is closed, and nothing else. -/
def Expr.isEvaluated : Expr → Bool
  | .constant .. => true
  | e => e.isWhole

/-- The subtree whose value stands for an expression, if that subtree is closed. Casts are left out,
and so are pairs of negations. -/
def Expr.valued? (negated : Bool) : Expr → Option Expr
  | .unary .convert operand => operand.valued? negated
  | .unary .not operand => operand.valued? !negated
  | e => if e.isEvaluated && !negated then some e else none

/-- The complement of a comparison becomes the complement of its test. -/
theorem Sql.Operator.asNullTest?_invertIf {op test : Sql.Operator} (negated : Bool)
    (h : op.asNullTest? = some test) :
    (op.invertIf negated).asNullTest? = some (test.invertIf negated) := by
  cases negated <;> cases op <;> cases h <;> rfl

namespace Context

variable {c : Context} {s : Scope} {e x : Expr} {w : Walk Term}
  {t t' : JoinTree} {a : Term} {closed : Bool}

/-- The lookup does not take the operand for `null`, or it finds by its value what the operand
becomes. -/
def AgreesOnNull (c : Context) (e : Expr) : Prop :=
  c.isProvablyNull e = .ok false ∨ ∃ x, e.valued? false = some x ∧
    c.isProvablyNull e = c.isClosedNull x

/-! ### Operands that are certain to be `null` -/

/-- Under no negation, a condition is the term of its expression. -/
theorem condition_eq_term (hs : s.negated = false) : c.condition s e = c.term s e := by
  simp [condition, asCondition, hs]

/-- A negation changes the sign of its operand. -/
theorem condition_unary_not (hs : s.pending = []) :
    c.condition s (.unary .not e) = c.condition (s.negatedIf !s.negated) e :=
  condition_not hs

theorem term_of_isEvaluated (hx : x.isEvaluated = true) (hopen : x.isClosed ≠ .ok false) :
    c.term s x = liftM (c.closedLiteral s x) := by
  cases x with
  | constant => rfl
  | _ => exact term_of_isWhole hx hopen

/-- Such a subtree becomes what the lookup of its value finds: the literal `NULL`, or a failure. -/
theorem term_of_isClosedNull {found : Except QueryError Bool} (hs : s.pending = [])
    (hx : x.isEvaluated = true) (hfound : c.isClosedNull x = found) (hne : found ≠ .ok false) :
    c.term s x = (liftM found >>= fun _ => pure (.literal .null)) := by
  subst hfound
  have hopen : x.isClosed ≠ .ok false := by
    intro hopen
    rw [isClosedNull_eq, hopen] at hne
    exact hne rfl
  rw [term_of_isEvaluated hx hopen, closedLiteral, literal, boundary_eq, hs]
  rw [isClosedNull_eq] at hne ⊢
  rcases hclosed : x.isClosed with err | _ | _
  · rfl
  · exact absurd hclosed hopen
  · cases hvalue : c.evaluator.evaluate x with
    | error err => rfl
    | ok v =>
      rw [hclosed, hvalue] at hne
      cases v with
      | null => rfl
      | _ => exact absurd rfl hne

/-- An expression becomes what the lookup of the subtree finds whose value stands for it. -/
theorem condition_of_valued? {found : Except QueryError Bool} {negated : Bool}
    (hs : s.pending = []) (hnegated : s.negated = negated) (hx : e.valued? negated = some x)
    (hfound : c.isClosedNull x = found) (hne : found ≠ .ok false) :
    c.condition s e = (liftM found >>= fun _ => pure (.literal .null)) := by
  fun_induction Expr.valued? negated e generalizing s with
  | case1 negated operand ih => exact ih hs hnegated hx
  | case2 negated operand ih =>
    rw [condition_unary_not hs]
    exact ih hs (congrArg not hnegated) hx
  | case3 negated e hconvert hnot hvalued =>
    obtain rfl := Option.some.inj hx
    rw [Bool.and_eq_true, Bool.not_eq_true'] at hvalued
    rw [condition_eq_term (hnegated.trans hvalued.2)]
    exact term_of_isClosedNull hs hvalued.1 hfound hne
  | case4 => cases hx

theorem handlesNegation_of_isEvaluated (hx : x.isEvaluated = true)
    (hclosed : x.isClosed = .ok true) : x.handlesNegation = .ok false := by
  cases x with
  | constant => rfl
  | _ => exact handlesNegation_of_isWhole hx hclosed

/-- What is evaluated becomes the literal `NULL` only by its value, and a negation around it is
written. -/
theorem isClosedNull_of_runs (hs : s.pending = []) (hx : x.isEvaluated = true)
    (hclosed : x.isClosed = .ok closed) (h : (c.condition s x).Runs t a t')
    (ha : a.isNullLiteral = true) : s.negated = false ∧ c.isClosedNull x = .ok true := by
  have hterm : (c.term s x).Runs t a t' := runs_of_asCondition h ha
  obtain rfl : closed = true := by
    have hopen := (knownNull_of_runs x s hterm ha).closed
    rwa [hclosed, ne_eq, Except.ok.injEq, Bool.not_eq_false] at hopen
  refine ⟨?_, ?_⟩
  · by_contra hnegated
    rw [Bool.not_eq_false] at hnegated
    simp only [condition, asCondition, hnegated, if_true, handlesNegation_of_isEvaluated hx hclosed,
      Walk.lift_ok, pure_bind, Bool.false_eq_true, if_false, Walk.runs_bind, Walk.runs_pure] at h
    obtain ⟨b, -, -, rfl, -⟩ := h
    cases ha
  · rw [term_of_isEvaluated hx (by simp [hclosed]), Walk.runs_lift,
      closedLiteral_of_closed hclosed, literal, boundary_eq, hs] at hterm
    obtain ⟨_, hboundary, hliteral⟩ := bind_eq_ok.1 hterm.1
    obtain ⟨v, hvalue, hdrill⟩ := bind_eq_ok.1 hboundary
    obtain rfl := Except.ok.inj hdrill
    obtain rfl := literalOf_eq_ok hliteral
    rw [isClosedNull_of_closed hclosed hvalue]
    exact congrArg _ ha

/-- What is neither evaluated nor a cast or a negation never becomes the literal `NULL`. -/
theorem term_neverNull_of_operation (hs : s.pending = []) (hclosed : e.isClosed = .ok closed)
    (hevaluated : e.isEvaluated = false) (hconvert : ∀ operand, e ≠ .unary .convert operand)
    (hnot : ∀ operand, e ≠ .unary .not operand) : (c.term s e).NeverNull := by
  cases e with
  | param => exact resolve_neverNull
  | unary op operand =>
    cases op with
    | convert => exact absurd rfl (hconvert operand)
    | not => exact absurd rfl (hnot operand)
    | negate =>
      rw [term, withMembers_nil hs]
      exact .bind fun _ => .pure rfl
  | binary op left right =>
    rw [term, withMembers_nil hs]
    split
    · cases op <;> cases hevaluated <;> contradiction
    · refine .ite (.bind fun _ => .bind fun _ => .pure rfl) ?_
      exact .ite comparison_neverNull arithmetic_neverNull
  | conditional =>
    rw [term, withMembers_nil hs]
    exact .bind fun _ => .bind fun _ => .bind fun _ => .pure rfl
  | lambda => cases hclosed
  | _ => cases hevaluated

/-- In no other way does an expression become the literal `NULL`. -/
theorem valued?_of_runs {negated : Bool} (hs : s.pending = []) (hnegated : s.negated = negated)
    (hclosed : e.isClosed = .ok closed) (h : (c.condition s e).Runs t a t')
    (ha : a.isNullLiteral = true) :
    ∃ x, e.valued? negated = some x ∧ c.isClosedNull x = .ok true := by
  fun_induction Expr.valued? negated e generalizing s with
  | case1 negated operand ih => exact ih hs hnegated hclosed h
  | case2 negated operand ih =>
    rw [condition_unary_not hs] at h
    have hpending : (s.negatedIf !s.negated).pending = [] := hs
    exact ih hpending (congrArg not hnegated) hclosed h
  | case3 negated e hconvert hnot hvalued =>
    rw [Bool.and_eq_true] at hvalued
    exact ⟨e, rfl, (isClosedNull_of_runs hs hvalued.1 hclosed h ha).2⟩
  | case4 negated e hconvert hnot hvalued =>
    exfalso
    by_cases hx : e.isEvaluated = true
    · have hneutral := (isClosedNull_of_runs hs hx hclosed h ha).1
      exact hvalued (by rw [hx, ← hnegated, hneutral]; rfl)
    · rw [Bool.not_eq_true] at hx
      have hnever := term_neverNull_of_operation (c := c) hs hclosed hx hconvert hnot
      cases ha.symm.trans (hnever t a t' (runs_of_asCondition h ha))

/-! ### Comparisons -/

theorem term_null (type : ValueType) (hs : s.pending = []) :
    c.term s (.constant type .null) = pure (.literal .null) := by
  rw [term, literal, boundary_eq, hs]
  rfl

variable {operator test : Sql.Operator} {type : ValueType} {walkNull : Walk Term}

/-- Behind the constant `null`, the other operand is not looked up. -/
theorem comparison_null_left (htest : operator.asNullTest? = some test) :
    c.comparison operator (.constant type .null) e walkNull w = do return .isNull (← w) test := by
  cases operator <;> cases htest <;> rfl

/-- In front of the constant `null`, the other operand is looked up first, and tested only if it may
have a value. -/
theorem comparison_null_right (htest : operator.asNullTest? = some test) :
    c.comparison operator e (.constant type .null) w walkNull = do
      return .isNull (← if ← c.isProvablyNull e then walkNull else w) test := by
  have hfound : c.nullTest? operator e (.constant type .null) =
      (c.isProvablyNull e).map fun isNull => some (isNull, test) := by
    unfold Context.nullTest?
    cases operator <;> cases htest <;> rcases c.isProvablyNull e with err | _ | _ <;> rfl
  rw [comparison, hfound]
  cases c.isProvablyNull e with
  | error err => rfl
  | ok isNull => cases isNull <;> rfl

/-- An operand that agrees with the lookup is compared with `null` alike from both sides. -/
theorem comparison_null_comm (hs : s.pending = []) (hneutral : s.negated = false)
    (htest : operator.asNullTest? = some test) (h : c.AgreesOnNull e) :
    c.comparison operator e (.constant type .null) (c.term s e)
        (c.term s (.constant type .null)) =
      c.comparison operator (.constant type .null) e (c.term s (.constant type .null))
        (c.term s e) := by
  rw [comparison_null_left htest, comparison_null_right htest, term_null type hs]
  by_cases hfalse : c.isProvablyNull e = .ok false
  · rw [hfalse]
    rfl
  · obtain ⟨x, hx, hfound⟩ := h.resolve_left hfalse
    have hcondition := condition_of_valued? hs hneutral hx hfound.symm hfalse
    rw [← condition_eq_term hneutral, hcondition]
    rcases hnull : c.isProvablyNull e with err | _ | _
    · rfl
    · exact absurd hnull hfalse
    · rfl

namespace Replaces

variable {binders : List (String × String)} {asked : Asked} {op : BinaryOp}

/-- So the operands of such a comparison may change places. -/
theorem null_comm (hop : op = .equal ∨ op = .notEqual) (h : c.AgreesOnNull e) :
    c.Replaces binders asked (.binary op e (.constant type .null))
      (.binary op (.constant type .null) e) := by
  have hclosed : (Expr.binary op e (.constant type .null)).isClosed =
      (Expr.binary op (.constant type .null) e).isClosed := by
    rw [Expr.isClosed, Expr.isClosed, Expr.isClosed]
    rcases e.isClosed with err | _ | _ <;> rfl
  have hvalue : c.evaluator.evaluate (.binary op e (.constant type .null)) =
      c.evaluator.evaluate (.binary op (.constant type .null) e) := by
    rcases hop with rfl | rfl
    all_goals
      simp only [Evaluator.evaluate]
      cases c.evaluator.evaluate e with
      | error err => rfl
      | ok v => simp only [pure_bind, ok_bind, Value.apply, Value.equals_comm v]
  rcases hop with rfl | rfl
  all_goals
    refine ⟨hclosed, hvalue, rfl, fun s _ => TypeQuestion.alike_of_eq rfl,
      fun _ => isClosedNull_congr hclosed hvalue, fun _ s _ _ => ?_⟩
    refine withMembers_congr hclosed hvalue rfl (.inr rfl) ?_
    exact comparison_null_comm rfl rfl (Sql.Operator.asNullTest?_invertIf s.negated rfl) h

end Replaces

/-! ### Conditions -/

/-- What a comparison with the constant `null` becomes, from either side. -/
theorem condition_null {op : BinaryOp} (hs : s.pending = [])
    (hop : Sql.Operator.ofBinary? op = some operator) (htest : operator.asNullTest? = some test) :
    c.condition s (.binary op (.constant type .null) e) =
        (do return .isNull (← c.term s.isolated.neutral e) (test.invertIf s.negated)) ∧
      c.condition s (.binary op e (.constant type .null)) =
        (do
          return .isNull (← if ← c.isProvablyNull e then pure (.literal .null)
            else c.term s.isolated.neutral e) (test.invertIf s.negated)) := by
  have htest' := Sql.Operator.asNullTest?_invertIf s.negated htest
  cases op <;> cases hop <;> cases htest
  all_goals
    constructor
    · rw [condition_of_handles rfl, term, withMembers_nil hs]
      exact comparison_null_left htest'
    · rw [condition_of_handles rfl, term, withMembers_nil hs]
      refine (comparison_null_right htest').trans ?_
      rw [term_null type rfl]

/-- An operand that may be looked up and made a term can be told to be closed or not. -/
theorem isClosed_of_isProvablyNull (hnull : c.isProvablyNull e = .ok true)
    (h : (c.term s e).Runs t a t') : ∃ closed, e.isClosed = .ok closed := by
  have hevaluated : ∀ x : Expr, x.isEvaluated = true → (c.term s x).Runs t a t' →
      ∃ closed, x.isClosed = .ok closed := by
    intro x hx hrun
    cases hclosed : x.isClosed with
    | ok closed => exact ⟨closed, rfl⟩
    | error err =>
      rw [term_of_isEvaluated hx (by simp [hclosed]), Walk.runs_lift, closedLiteral, hclosed]
        at hrun
      cases hrun.1
  induction e using isProvablyNull.induct with
  | case1 => exact ⟨true, rfl⟩
  | case2 | case3 => exact hevaluated _ rfl h
  | case4 operand ih => exact ih hnull h
  | case5 e hconstant hmember hindex hconvert =>
    rw [isProvablyNull] at hnull
    · obtain ⟨closed, hclosed, -⟩ := bind_eq_ok.1 hnull
      exact ⟨closed, hclosed⟩
    all_goals assumption

/-- Where a comparison with `null` becomes the same test from both sides, the operand agrees with
the lookup. -/
theorem agreesOnNull_of_runs {op : BinaryOp} {b : Term} {t'' : JoinTree} (hs : s.pending = [])
    (hop : Sql.Operator.ofBinary? op = some operator) (htest : operator.asNullTest? = some test)
    (hleft : (c.condition s (.binary op e (.constant type .null))).Runs t a t')
    (hright : (c.condition s (.binary op (.constant type .null) e)).Runs t b t'')
    (hab : a.unparenthesized = b.unparenthesized) : c.AgreesOnNull e := by
  rw [(condition_null hs hop htest).1] at hright
  rw [(condition_null hs hop htest).2] at hleft
  obtain ⟨tested, t₁, hterm, hb⟩ := Walk.runs_bind.1 hright
  obtain ⟨rfl, rfl⟩ := Walk.runs_pure.1 hb
  obtain ⟨isNull, t₂, hfound, ha⟩ := Walk.runs_bind.1 hleft
  obtain ⟨hnull, rfl⟩ := Walk.runs_lift.1 hfound
  cases isNull with
  | false => exact .inl hnull
  | true =>
    simp only [if_true, pure_bind, Walk.runs_pure] at ha
    obtain ⟨rfl, rfl⟩ := ha
    cases hab
    obtain ⟨closed, hclosed⟩ := isClosed_of_isProvablyNull hnull hterm
    have hcondition : (c.condition s.isolated.neutral e).Runs t (.literal .null) t₁ := by
      rwa [condition_eq_term rfl]
    obtain ⟨x, hx, hfound⟩ := valued?_of_runs rfl rfl hclosed hcondition rfl
    exact .inr ⟨x, hx, hnull.trans hfound.symm⟩

end Context

namespace Compiler

/-- The operands of a comparison with the constant `null` may change places in every part of a
filter or of a key, if the other operand agrees with the lookup: it is not certain to be `null`, or
it becomes the value by which it is. If it does not agree, then the filters that are no more than
the comparison are the same only where they fail alike. -/
theorem build_null_comm (c : Compiler) (r : Request) {op : BinaryOp} (type : ValueType) (e : Expr)
    (hop : op = .equal ∨ op = .notEqual) :
    let left : Expr := .binary op e (.constant type .null)
    let right : Expr := .binary op (.constant type .null) e
    (c.context.AgreesOnNull e → ∀ place : Place,
      c.build { r with filter := some (place.fill left) } =
          c.build { r with filter := some (place.fill right) } ∧
        ∀ before after descending,
          c.build { r with order := before ++ ⟨place.fill left, descending⟩ :: after } =
            c.build { r with order := before ++ ⟨place.fill right, descending⟩ :: after }) ∧
    ∀ p : Param,
      c.build { r with filter := some (.lambda [p] left) } =
          c.build { r with filter := some (.lambda [p] right) } ↔
        c.context.AgreesOnNull e ∨ ∃ err,
          c.build { r with filter := some (.lambda [p] left) } = .error err ∧
            c.build { r with filter := some (.lambda [p] right) } = .error err := by
  intro left right
  have hplaces (h : c.context.AgreesOnNull e) (place : Place) :=
    build_of_replaces r (Context.replaces_fill
      (@Context.Replaces.null_comm c.context e type (place.binders [])
        (place.asks c.context left [] { walked := true }) op hop h))
  refine ⟨hplaces, fun p => ⟨fun heq => ?_, ?_⟩⟩
  · cases hleft : c.build { r with filter := some (.lambda [p] left) } with
    | error err => exact .inr ⟨err, rfl, heq.symm.trans hleft⟩
    | ok q =>
      have hright := heq.symm.trans hleft
      obtain ⟨root, f, t, order, t₁, columns, hroot, hf, -, -, rfl⟩ := build_eq_ok_iff.1 hleft
      obtain ⟨root', f', t', order', t₁', columns', hroot', hf', -, -, hq⟩ :=
        build_eq_ok_iff.1 hright
      obtain rfl : root = root' := Except.ok.inj (hroot.symm.trans hroot')
      obtain rfl : f = f' := congrArg Sql.Query.filter hq
      obtain ⟨a, ha, rfl⟩ := runs_filter_lambda.1 hf
      obtain ⟨b, hb, hab⟩ := runs_filter_lambda.1 hf'
      obtain ⟨operator, test, hoperator, htest⟩ : ∃ operator test,
          Sql.Operator.ofBinary? op = some operator ∧ operator.asNullTest? = some test := by
        rcases hop with rfl | rfl <;> exact ⟨_, _, rfl, rfl⟩
      exact .inl (Context.agreesOnNull_of_runs rfl hoperator htest ha hb (Option.some.inj hab))
  · rintro (h | ⟨err, hleft, hright⟩)
    · exact (hplaces h [.bodyOf [p]]).1
    · exact hleft.trans hright.symm

/-- The age of a friend, compared with `null` under a negation. -/
theorem build_null_comm_friend :
    let age : Expr := .memberOf (.memberOf (.param "p" "Person") "Friend") "Age"
    let place : Place := [.bodyOf [⟨"p", "Person"⟩], .operandOf .not,
      .leftOf .or (.memberOf (.param "p" "Person") "IsActive")]
    let r : Request := { model := "Person" }
    sample.build { r with filter := some (place.fill (.binary .notEqual age (.ofValue .null))) } =
      sample.build
        { r with filter := some (place.fill (.binary .notEqual (.ofValue .null) age)) } := by
  intro age place r
  have hage : sample.context.AgreesOnNull age := .inl rfl
  exact ((build_null_comm sample r .unknown age (.inr rfl)).1 hage place).1

/-- A division by zero on the left fails when it is looked up, and on the right it is divided by the
database. -/
theorem build_null_comm_fails :
    let division : Expr := .binary .divide (.ofValue (.int 1)) (.ofValue (.int 0))
    let left : Expr := .lambdaOver "p" "Person" (.binary .equal division (.ofValue .null))
    let right : Expr := .lambdaOver "p" "Person" (.binary .equal (.ofValue .null) division)
    sample.build { model := "Person", filter := some left } =
        .error (.evaluation .divisionByZero) ∧
      (sample.build { model := "Person", filter := some right }).map Sql.Query.filter =
        .ok (some (.isNull (.operation (.literal (.int 1)) .divide (.literal (.int 0)))
          .equalsNull)) := by
  intro division left right
  exact ⟨rfl, rfl⟩

end Compiler

end PredicateSql
