import PredicateSql.Proofs.Query.Analysis
import PredicateSql.Proofs.Query.Runs

/-!
# Expressions that become `NULL`

Whether an expression is certain to be `null` is looked up before a comparison is written, and apart
from the walk that makes the expression a term. The two agree.

* `Context.KnownNull`: an expression that has no other value than `null`.
* `Context.knownNull_of_runs`: an expression that becomes the literal `NULL` is such an expression.
  The induction is on the expression, for all scopes, as the members that wait for a value are
  applied to closed subtrees at any depth.
* `Context.isProvablyNull_ne_false`: the lookup does not miss such an expression, and so
  `Context.term_neverNull`: what it lets pass does not become `NULL`.
-/

namespace PredicateSql

open Sql (Term)

/-- The literal `NULL`. -/
def Sql.Term.isNullLiteral : Term → Bool
  | .literal value => value.isNull
  | _ => false

/-! ### Walks that never end in `NULL` -/

/-- The walk does not find the literal `NULL`. -/
def Walk.NeverNull (w : Walk Term) : Prop :=
  ∀ t a t', w.Runs t a t' → a.isNullLiteral = false

namespace Walk.NeverNull

theorem pure {a : Term} (h : a.isNullLiteral = false) : (Pure.pure a : Walk Term).NeverNull :=
  Always.pure h

theorem throw {e : QueryError} : (MonadExcept.throw e : Walk Term).NeverNull :=
  Always.throw

theorem bind {α : Type} {w : Walk α} {f : α → Walk Term} (h : ∀ a, (f a).NeverNull) :
    (w >>= f).NeverNull :=
  Always.after h

theorem ite {p : Prop} [Decidable p] {w v : Walk Term} (hw : w.NeverNull) (hv : v.NeverNull) :
    (if p then w else v).NeverNull :=
  Always.ite hw hv

end Walk.NeverNull

/-- What is known of the results of a walk, and that none is `NULL` if a condition holds. -/
theorem Walk.Yields.notNull {I : JoinTree → Prop} {P : JoinTree → Term → Prop} {p : Prop}
    {w : Walk Term} (h : w.Yields I P) (hw : p → w.NeverNull) :
    w.Yields I fun t a => P t a ∧ (p → a.isNullLiteral = false) := by
  intro t a t' ht ha
  obtain ⟨hext, ht', hpost⟩ := h t a t' ht ha
  exact ⟨hext, ht', hpost, fun hp => hw hp t a t' ha⟩

/-- Members are written around a term, so they do not end in `NULL` unless the term was `NULL`. -/
theorem isNullLiteral_of_scalarMembers {members : List String} {a b : Term} {type : ValueType}
    (h : scalarMembers a type members = .ok b) : b.isNullLiteral = true → a.isNullLiteral = true :=
  scalarMembers_induction (P := fun x => x.isNullLiteral = true → a.isNullLiteral = true) h id
    (fun _ _ => nofun) fun _ _ => nofun

namespace Context

variable {c : Context} {s : Scope} {e : Expr} {w : Walk Term} {t t' : JoinTree} {a : Term}

/-! ### Nodes -/

theorem column_neverNull {node : Nat} {p : Property} {members : List String} :
    (column node p members).NeverNull := by
  intro t a t' h
  simp only [column, Walk.runs_bind, Walk.runs_get, Walk.runs_lift] at h
  obtain ⟨_, _, -, hmembers, -⟩ := h
  by_contra hnull
  cases isNullLiteral_of_scalarMembers hmembers (Bool.of_not_eq_false hnull)

theorem follow_neverNull {node : Nat} {p : Property} {members : List String} :
    (c.follow node p members).NeverNull := by
  induction members generalizing node p with
  | nil => exact column_neverNull
  | cons member rest ih =>
    rw [follow]
    split
    · exact column_neverNull
    · refine .ite column_neverNull (.ite ih ?_)
      exact .bind fun target => .bind fun child => .bind fun next => ih

theorem resolve_neverNull {name declared : String} : (c.resolve s name declared).NeverNull := by
  unfold resolve
  split
  · refine .bind fun t => .ite .throw (.bind fun model => ?_)
    split
    · exact .throw
    · exact .bind fun property => follow_neverNull
  · exact .throw

theorem comparison_always {P : Term → Prop} {op : Sql.Operator} {left right : Expr}
    {walkLeft walkRight : Walk Term} (hnull : ∀ a op, P (.isNull a op))
    (hoperation : ∀ a op b, P (.operation a op b)) :
    (c.comparison op left right walkLeft walkRight).Always P := by
  unfold comparison
  refine .after fun found => ?_
  split
  · exact .ite (.after fun a => .pure (hnull a _)) (.after fun a => .pure (hnull a _))
  · exact .after fun a => .after fun b => .pure (hoperation a op b)

theorem arithmetic_always {P : Term → Prop} {op : BinaryOp} {operator : Sql.Operator}
    {left right : Expr} {walkLeft walkRight : Walk Term} (hconcat : ∀ parts, P (.concat parts))
    (hoperation : ∀ a op b, P (.operation a op b)) :
    (c.arithmetic s op operator left right walkLeft walkRight).Always P :=
  .after fun a => .after fun b => .ite (.pure (hconcat _)) (.pure (hoperation a operator b))

theorem comparison_neverNull {op : Sql.Operator} {left right : Expr}
    {walkLeft walkRight : Walk Term} :
    (c.comparison op left right walkLeft walkRight).NeverNull :=
  comparison_always (fun _ _ => rfl) fun _ _ _ => rfl

theorem arithmetic_neverNull {op : BinaryOp} {operator : Sql.Operator} {left right : Expr}
    {walkLeft walkRight : Walk Term} :
    (c.arithmetic s op operator left right walkLeft walkRight).NeverNull :=
  arithmetic_always (fun _ => rfl) fun _ _ _ => rfl

theorem inList_neverNull {collection : Expr} {walkItem : Walk Term} :
    (c.inList s collection walkItem).NeverNull := by
  unfold inList
  refine .bind fun closed => .ite (.bind fun value => .ite (.pure rfl) ?_) .throw
  exact .bind fun item => .bind fun list => .ite (.pure rfl) (.ite (.pure rfl) (.pure rfl))

theorem like_neverNull {method : Method} {anchor : Text.Anchor} {pattern : Expr}
    {walkItem walkPattern : Walk Term} :
    (c.like s method anchor pattern walkItem walkPattern).NeverNull := by
  unfold like
  refine .bind fun item => .bind fun closed => .ite (.bind fun value => ?_) ?_
  · split
    · exact .pure rfl
    · exact .throw
  · exact .bind fun a => .pure rfl

theorem callWithArg_neverNull {method : Method} {target arg : Expr}
    {walkTarget walkArg : Walk Term} :
    (c.callWithArg s method target arg walkTarget walkArg).NeverNull := by
  unfold callWithArg
  refine .ite inList_neverNull ?_
  split
  · exact like_neverNull
  · exact .throw

theorem callWithoutArgs_neverNull {method : Method} {walkTarget : Walk Term} :
    (callWithoutArgs method walkTarget).NeverNull := by
  unfold callWithoutArgs
  split
  · exact .bind fun a => .pure rfl
  · exact .throw

/-! ### Closed expressions -/

/-- The expression does not depend on a parameter, and if it has a value with the waiting members
applied to it, that is `null`. -/
structure KnownNull (c : Context) (s : Scope) (e : Expr) : Prop where
  closed : e.isClosed ≠ .ok false
  value : ∀ v, c.boundary s e = .ok v → v.isNull = true

theorem knownNull_member {owner : Expr} {type name : String} :
    c.KnownNull s (.member owner type name) ↔ c.KnownNull (s.withMember name) owner := by
  refine ⟨fun h => ⟨h.closed, ?_⟩, fun h => ⟨h.closed, ?_⟩⟩
  · rw [← boundary_member]
    exact h.value
  · rw [boundary_member]
    exact h.value

theorem knownNull_convert {operand : Expr} :
    c.KnownNull s (.unary .convert operand) ↔ c.KnownNull s operand := by
  refine ⟨fun h => ⟨h.closed, ?_⟩, fun h => ⟨h.closed, ?_⟩⟩
  · rw [← boundary_convert]
    exact h.value
  · rw [boundary_convert]
    exact h.value

/-- The negation of `null` is `null`, as it is in SQL. -/
theorem knownNull_not {operand : Expr} {s' : Scope} (hs' : s'.pending = [])
    (h : c.KnownNull s' operand) : c.KnownNull s.isolated (.unary .not operand) := by
  refine ⟨h.closed, fun v hv => ?_⟩
  rw [boundary_isolated, Evaluator.evaluate] at hv
  obtain ⟨value, hvalue, hv⟩ := bind_eq_ok.1 hv
  have hnull := h.value value (by rw [boundary_eq, hvalue, hs']; rfl)
  cases value with
  | null =>
    obtain rfl := Except.ok.inj hv
    rfl
  | _ => cases hnull

theorem knownNull_of_literal (hclosed : e.isClosed = .ok true) (h : c.literal s e = .ok a)
    (ha : a.isNullLiteral = true) : c.KnownNull s e := by
  refine ⟨by simp [hclosed], fun v hv => ?_⟩
  rw [literal, hv] at h
  obtain rfl := literalOf_eq_ok h
  exact ha

/-! ### Walks of nodes -/

theorem runs_of_asCondition (h : (asCondition s e w).Runs t a t') (ha : a.isNullLiteral = true) :
    w.Runs t a t' := by
  simp only [asCondition, Walk.runs_bind] at h
  obtain ⟨b, t₁, hb, h⟩ := h
  split at h
  · simp only [Walk.runs_bind, Walk.runs_lift] at h
    obtain ⟨handles, _, ⟨-, rfl⟩, h⟩ := h
    split at h <;> obtain ⟨rfl, rfl⟩ := Walk.runs_pure.1 h
    · exact hb
    · cases ha
  · obtain ⟨rfl, rfl⟩ := Walk.runs_pure.1 h
    exact hb

theorem knownNull_of_withMembers (h : (c.withMembers s e w).Runs t a t')
    (ha : a.isNullLiteral = true)
    (hwalk : ∀ b t₁, w.Runs t b t₁ → b.isNullLiteral = true → c.KnownNull s.isolated e) :
    c.KnownNull s e := by
  unfold withMembers at h
  split at h
  · next hs =>
    have hnull := hwalk a t' h ha
    rwa [Scope.isolated, ← hs] at hnull
  · simp only [Walk.runs_bind, Walk.runs_lift] at h
    obtain ⟨closed, _, ⟨hclosed, rfl⟩, h⟩ := h
    split at h
    · next htrue =>
      subst htrue
      exact knownNull_of_literal hclosed (Walk.runs_lift.1 h).1 ha
    · next hfalse =>
      split at h
      · simp at h
      · simp only [Walk.runs_bind, Walk.runs_lift] at h
        obtain ⟨b, t₁, hb, hmembers, rfl⟩ := h
        -- Members of `NULL` would need an open expression that became `NULL` itself.
        have hnull := hwalk b t₁ hb (isNullLiteral_of_scalarMembers hmembers ha)
        exact (hnull.closed (by rw [hclosed, Bool.eq_false_iff.2 hfalse])).elim

theorem knownNull_of_closedOr (hw : w.NeverNull) (h : (c.closedOr s e w).Runs t a t')
    (ha : a.isNullLiteral = true) : c.KnownNull s.isolated e := by
  simp only [closedOr, Walk.runs_bind, Walk.runs_lift] at h
  obtain ⟨closed, _, ⟨hclosed, rfl⟩, h⟩ := h
  split at h
  · next htrue =>
    subst htrue
    exact knownNull_of_literal hclosed (Walk.runs_lift.1 h).1 ha
  · have hnot := hw _ _ _ h
    rw [ha] at hnot
    cases hnot

/-- A node that becomes `NULL` only where it is closed. -/
theorem knownNull_of_closed (hw : w.NeverNull)
    (h : (c.withMembers s e (c.closedOr s e w)).Runs t a t') (ha : a.isNullLiteral = true) :
    c.KnownNull s e :=
  knownNull_of_withMembers h ha fun _ _ hb hnull => knownNull_of_closedOr hw hb hnull

/-- A node that never becomes `NULL`, but for the members that wait for its value. -/
theorem knownNull_of_neverNull (hw : w.NeverNull) (h : (c.withMembers s e w).Runs t a t')
    (ha : a.isNullLiteral = true) : c.KnownNull s e := by
  refine knownNull_of_withMembers h ha fun b t₁ hb hnull => ?_
  have hnot := hw _ _ _ hb
  rw [hnull] at hnot
  cases hnot

/-! ### Expressions -/

/-- Only closed expressions without another value than `null` become the literal `NULL`. -/
theorem knownNull_of_runs : ∀ (e : Expr) (s : Scope) {t t' : JoinTree} {a : Term},
    (c.term s e).Runs t a t' → a.isNullLiteral = true → c.KnownNull s e
  | .constant .., _, _, _, _, h, ha | .staticMember .., _, _, _, _, h, ha =>
    knownNull_of_literal rfl (Walk.runs_lift.1 h).1 ha
  | .param .., _, _, _, _, h, ha => by
    have hnot := resolve_neverNull _ _ _ h
    rw [ha] at hnot
    cases hnot
  | .member owner _ name, s, _, _, _, h, ha =>
    knownNull_member.2 (knownNull_of_runs owner (s.withMember name) h ha)
  | .unary .convert operand, s, _, _, _, h, ha =>
    knownNull_convert.2 (knownNull_of_runs operand s h ha)
  | .unary .not operand, s, _, _, _, h, ha => by
    refine knownNull_of_withMembers h ha fun b t₁ hb hnull => ?_
    exact knownNull_not rfl (knownNull_of_runs operand _ (runs_of_asCondition hb hnull) hnull)
  | .unary .negate _, _, _, _, _, h, ha =>
    knownNull_of_neverNull (.bind fun _ => .pure rfl) h ha
  | .binary op left right, s, t, t', a, h, ha => by
    refine knownNull_of_withMembers h ha fun b t₁ hb hnull => ?_
    split at hb
    · exact knownNull_of_closedOr .throw hb hnull
    · have hnever : ¬ b.isNullLiteral = true := by
        rw [Bool.not_eq_true]
        split at hb
        · exact Walk.NeverNull.bind (fun _ => .bind fun _ => .pure rfl) _ _ _ hb
        · split at hb
          · exact comparison_neverNull _ _ _ hb
          · exact arithmetic_neverNull _ _ _ hb
      exact (hnever hnull).elim
  | .call _ _ [], _, _, _, _, h, ha => knownNull_of_closed callWithoutArgs_neverNull h ha
  | .call _ _ [_], _, _, _, _, h, ha => knownNull_of_closed callWithArg_neverNull h ha
  | .staticCall _ [_, _], _, _, _, _, h, ha =>
    knownNull_of_closed (.ite inList_neverNull .throw) h ha
  | .call _ _ (_ :: _ :: _), _, _, _, _, h, ha | .staticCall _ [], _, _, _, _, h, ha
  | .staticCall _ [_], _, _, _, _, h, ha | .staticCall _ (_ :: _ :: _ :: _), _, _, _, _, h, ha
  | .new .., _, _, _, _, h, ha | .array .., _, _, _, _, h, ha =>
    knownNull_of_closed .throw h ha
  | .conditional .., _, _, _, _, h, ha =>
    knownNull_of_neverNull (.bind fun _ => .bind fun _ => .bind fun _ => .pure rfl) h ha
  | .lambda params body, s, _, _, _, h, ha => by
    refine knownNull_of_withMembers h ha fun b t₁ hb hnull => ⟨nofun, fun v hv => ?_⟩
    cases hv

/-! ### The lookup -/

theorem isClosedNull_ne_false (hs : s.pending = []) (h : c.KnownNull s e) :
    c.isClosedNull e ≠ .ok false := by
  intro hnull
  rw [isClosedNull_eq] at hnull
  obtain ⟨closed, hclosed, hnull⟩ := bind_eq_ok.1 hnull
  cases closed with
  | false => exact h.closed hclosed
  | true =>
    obtain ⟨v, hvalue, hnull⟩ := bind_eq_ok.1 hnull
    have hv := h.value v (by rw [boundary_eq, hvalue, hs]; rfl)
    cases hv.symm.trans (Except.ok.inj hnull)

/-- So it is where something else is looked up before. -/
theorem lookup_ne_false (hs : s.pending = []) (h : c.KnownNull s e) (x : Except QueryError Bool) :
    (do if ← x then return true else c.isClosedNull e : Except QueryError Bool) ≠ .ok false := by
  rcases x with err | _ | _
  · exact nofun
  · exact isClosedNull_ne_false hs h
  · exact nofun

/-- The lookup does not take an expression without another value than `null` for one that may have
some. -/
theorem isProvablyNull_ne_false (hs : s.pending = []) (h : c.KnownNull s e) :
    c.isProvablyNull e ≠ .ok false := by
  fun_induction isProvablyNull c e with
  | case1 type value =>
    have hv := h.value value (by rw [boundary_eq, hs]; rfl)
    simp [hv, pure, Except.pure]
  | case2 | case3 => exact lookup_ne_false hs h _
  | case4 operand ih => exact ih (knownNull_convert.1 h)
  | case5 => exact isClosedNull_ne_false hs h

/-- What may have a value does not become the literal `NULL`. -/
theorem term_neverNull (hs : s.pending = []) (h : c.isProvablyNull e = .ok false) :
    (c.term s e).NeverNull := by
  intro t a t' ha
  by_contra hnull
  exact isProvablyNull_ne_false hs (knownNull_of_runs e s ha (Bool.of_not_eq_false hnull)) h

end Context

end PredicateSql
