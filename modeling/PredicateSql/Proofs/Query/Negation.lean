import Mathlib.Logic.Basic
import PredicateSql.Proofs.Query.Analysis
import PredicateSql.Proofs.Query.Related
import PredicateSql.Proofs.Query.Runs

/-!
# Negations pushed into conditions

A condition under a negation is not made a term and negated: its operators become their
complements, and a `NOT` is written around what has no complement. A condition stands
under an even number of negations (`Scope.neutral`) or under an odd one (`Scope.underNot`).

* `Context.reacts`: the values of the two terms are an outcome of the expression, and the terms
  leave one tree. The induction is on the expression; members that wait for the value of a subtree
  are carried along in the scope.
* `Compiler.negation_spec`: what that means for the values of conditions, and for a filter and its
  negation.
-/

namespace PredicateSql

open Sql (Term Database Row)
open Walk (Agree)

/-! ### Scopes and conditions -/

/-- A subtree under an odd number of negations. -/
def Scope.underNot (s : Scope) : Scope :=
  { s with negated := true }

namespace Context

variable {c : Context} {s : Scope} {e : Expr} {w v : Walk Term}

/-- Under an even number of negations, a condition is the term of its expression. -/
theorem condition_neutral (e : Expr) : c.condition s.neutral e = c.term s.neutral e := by
  unfold condition asCondition
  simp [Scope.neutral]

/-- Under an odd number of negations, a `NOT` is written where the term does without one. -/
theorem condition_underNot (e : Expr) :
    c.condition s.underNot e = (do
      let term ← c.term s.underNot e
      if ← e.handlesNegation then return term else return .not term) := rfl

/-- A condition that deals with a negation itself. -/
theorem condition_agree_of_handles {R : Term → Term → Prop} (he : e.handlesNegation = .ok true)
    (h : Agree R (c.term s.neutral e) (c.term s.underNot e)) :
    Agree R (c.condition s.neutral e) (c.condition s.underNot e) := by
  rw [condition_neutral, condition_underNot, he]
  simpa using h

/-- A condition that a `NOT` is written around. -/
theorem condition_agree_of_wraps {R S : Term → Term → Prop}
    (he : ∀ b, e.handlesNegation = .ok b → b = false)
    (h : Agree R (c.term s.neutral e) (c.term s.underNot e)) (hS : ∀ a b, R a b → S a (.not b)) :
    Agree S (c.condition s.neutral e) (c.condition s.underNot e) := by
  rw [condition_neutral, condition_underNot]
  intro t a t' b t'' ha hb
  simp only [Walk.runs_bind, Walk.runs_lift] at hb
  obtain ⟨b', s', hb', handles, s'', ⟨hhandles, rfl⟩, hb⟩ := hb
  -- Both walks ran from one tree; to ask who deals with the negation leaves it as it is.
  obtain ⟨rfl, hab⟩ := h t a t' b' s' ha hb'
  obtain rfl := he handles hhandles
  obtain ⟨rfl, rfl⟩ := Walk.runs_pure.1 hb
  exact ⟨rfl, hS a b' hab⟩

/-- A closed node is one literal, whatever the negations around it. -/
theorem closedOr_agree {R : Term → Term → Prop} (hclosed : e.isClosed = .ok true → ∀ a, R a a)
    (hopen : e.isClosed = .ok false → Agree R w v) :
    Agree R (c.closedOr s.neutral e w) (c.closedOr s.underNot e v) := by
  unfold closedOr
  cases h : e.isClosed with
  | error err => exact Agree.throw
  | ok closed =>
    cases closed with
    | true => exact Agree.refl (hclosed h)
    | false => exact hopen h

theorem withMembers_underNot : c.withMembers s.underNot e w = c.withMembers s.neutral e w := by
  unfold withMembers
  rw [c.staticType?_congr (show s.underNot.binders = s.neutral.binders from rfl)]
  rfl

theorem members_alike {a b m n : Term} {type : ValueType} {members : List String}
    (h : Term.Related Alike a b) (hm : scalarMembers a type members = .ok m)
    (hn : scalarMembers b type members = .ok n) : Term.Related Alike m n :=
  (scalarMembers_agree h hm hn).mono fun _ _ => Outcomes.alike_of_ofMembers

/-- Members that wait are taken of the literal of a closed node, or of the term of a node whose
type is known. -/
theorem withMembers_agree {R S : Term → Term → Prop} (hs : s.pending ≠ [])
    (hclosed : e.isClosed = .ok true → ∀ a, S a a)
    (hopen : ∀ type, e.isClosed = .ok false → c.staticType? s.neutral e = some type →
      Agree R w v)
    (hmembers : ∀ a b type m n, R a b → scalarMembers a type s.pending = .ok m →
      scalarMembers b type s.pending = .ok n → e.isClosed = .ok false → S m n) :
    Agree S (c.withMembers s.neutral e w) (c.withMembers s.underNot e v) := by
  obtain ⟨first, rest, hpending⟩ := List.exists_cons_of_ne_nil hs
  have hneutral : s.neutral.pending = first :: rest := hpending
  rw [withMembers_underNot]
  unfold withMembers
  rw [hneutral]
  cases h : e.isClosed with
  | error err => exact Agree.throw
  | ok closed =>
    cases closed with
    | true => exact Agree.refl (hclosed h)
    | false =>
      cases htype : c.staticType? s.neutral e with
      | none => exact Agree.throw
      | some type =>
        -- The same members are taken of two terms that `R` relates.
        show Agree S (w >>= fun m => liftM (scalarMembers m type (first :: rest)))
          (v >>= fun m => liftM (scalarMembers m type (first :: rest)))
        refine Agree.bind (hopen type h htype) ?_
        intro a b hab t m t' n t'' hm hn
        obtain ⟨hm', rfl⟩ := Walk.runs_lift.1 hm
        obtain ⟨hn', rfl⟩ := Walk.runs_lift.1 hn
        rw [← hpending] at hm' hn'
        exact ⟨rfl, hmembers a b type m n hab hm' hn' h⟩

/-! ### Single nodes -/

theorem comparison_agree {op : Sql.Operator} {test : Ordering → Bool} {left right : Expr}
    {walkLeft walkRight : Walk Term} (hop : op.ordering? = some test) :
    Agree (Term.Related Opposite) (c.comparison op left right walkLeft walkRight)
      (c.comparison op.invert left right walkLeft walkRight) := by
  unfold comparison
  rw [nullTest?_invert]
  cases h : c.nullTest? op left right with
  | error err => exact Agree.throw
  | ok found =>
    cases found with
    | none =>
      simp only [Except.map, Option.map, Walk.lift_ok, pure_bind]
      refine Agree.bind_same fun a => Agree.bind_same fun b => Agree.pure ?_
      exact Term.related_comparison hop
    | some found =>
      obtain ⟨leftIsNull, nullOp⟩ := found
      simp only [Except.map, Option.map, Walk.lift_ok, pure_bind]
      have hnull := nullTest?_operator h
      refine Agree.ite (fun _ => ?_) fun _ => ?_ <;>
        exact Agree.bind_same fun a => Agree.pure (Term.related_isNull hnull)

theorem inList_agree {collection : Expr} {walkItem : Walk Term} :
    Agree (Term.Related Opposite) (c.inList s.neutral collection walkItem)
      (c.inList s.underNot collection walkItem) := by
  unfold inList
  refine Agree.bind_same fun closed => Agree.ite (fun _ => ?_) fun _ => Agree.throw
  refine Agree.bind_same fun value => Agree.ite (fun _ => Agree.pure Term.related_empty) fun _ => ?_
  refine Agree.bind_same fun item => Agree.bind_same fun list => ?_
  refine Agree.ite (fun _ => Agree.pure Term.related_inList) fun _ => ?_
  refine Agree.ite (fun _ => Agree.pure (Term.related_isNull (.inl rfl))) fun _ => Agree.pure ?_
  have hin : Term.Related Opposite (.inList item list false) (.inList item list true) :=
    Term.related_inList
  have hnull : Term.Related Opposite (.isNull item .equalsNull) (.isNull item .notEqualsNull) :=
    Term.related_isNull (.inl rfl)
  exact (Term.related_or hin hnull).mono fun _ _ => Outcomes.or_opposite.1

theorem like_agree {method : Method} {anchor : Text.Anchor} {pattern : Expr}
    {walkItem walkPattern : Walk Term} :
    Agree (Term.Related Opposite) (c.like s.neutral method anchor pattern walkItem walkPattern)
      (c.like s.underNot method anchor pattern walkItem walkPattern) := by
  unfold like
  refine Agree.bind_same fun item => Agree.bind_same fun closed => ?_
  refine Agree.ite (fun _ => ?_) fun _ => ?_
  · refine Agree.bind_same fun value => ?_
    cases value with
    | string text => exact Agree.pure Term.related_like
    | _ => exact Agree.throw
  · exact Agree.bind_same fun pattern => Agree.pure Term.related_like

theorem callWithArg_agree {method : Method} {target arg : Expr} {walkTarget walkArg : Walk Term} :
    Agree (Term.Related Opposite)
      (c.callWithArg s.neutral method target arg walkTarget walkArg)
      (c.callWithArg s.underNot method target arg walkTarget walkArg) := by
  unfold callWithArg
  refine Agree.ite (fun _ => inList_agree) fun _ => ?_
  cases method.declaringType with
  | string =>
    cases method.anchor? with
    | some anchor => exact like_agree
    | none => exact Agree.throw
  | _ => exact Agree.throw

/-- A call with an argument that has a term has a method that looks for something. -/
theorem callWithArg_throws {method : Method} {target arg : Expr} {walkTarget walkArg : Walk Term}
    {t t' : JoinTree} {a : Term} (hmethod : method.anchor? = none) :
    ¬ (c.callWithArg s method target arg walkTarget walkArg).Runs t a t' := by
  unfold callWithArg
  rw [if_neg fun h => Method.anchor?_contains h.1 hmethod, hmethod]
  cases method.declaringType <;> exact Walk.runs_throw

/-- A method that looks for something has no term without an argument. -/
theorem callWithoutArgs_agree {method : Method} {walkTarget : Walk Term}
    (hmethod : method.anchor?.isSome = true) :
    Agree (Term.Related Opposite) (callWithoutArgs method walkTarget)
      (callWithoutArgs method walkTarget) := by
  have hfunction : method.function? = none := by
    rw [Method.anchor?] at hmethod
    rw [Method.function?]
    cases hknown : method.known? with
    | none => rfl
    | some known => cases known <;> simp_all
  unfold callWithoutArgs
  rw [hfunction]
  cases method.declaringType <;> exact Agree.throw

/-! ### Expressions -/

/-- The terms of an expression under an even and under an odd number of negations are related by
its outcomes. -/
def Reacts (c : Context) (s : Scope) (e : Expr) : Prop :=
  (s.pending = [] → Agree (Term.Related e.outcomes) (c.condition s.neutral e)
    (c.condition s.underNot e)) ∧
  (s.pending ≠ [] → Agree (Term.Related (e.chainOutcomes s.pending)) (c.term s.neutral e)
    (c.term s.underNot e))

/-- A node whose term does not depend on the negations around it. -/
theorem reacts_of_fixed (houtcomes : e.outcomes = Opposite)
    (hchain : e.chainOutcomes s.pending = Alike) (hhandles : e.handlesNegation = .ok false)
    (hterm : c.term s.underNot e = c.term s.neutral e) : c.Reacts s e := by
  constructor
  · intro _
    rw [houtcomes]
    refine condition_agree_of_wraps ?_ ?_ fun a b => Term.related_not_of_alike
    · intro b hb
      exact (Except.ok.inj (hhandles.symm.trans hb)).symm
    · rw [hterm]
      exact Agree.refl Term.related_refl
  · intro _
    rw [hchain, hterm]
    exact Agree.refl Term.related_refl

/-- A call deals with a negation around it where its method looks for something, unless the call
is one literal. -/
theorem reacts_of_call {method : Method} (houtcomes : e.outcomes = Opposite)
    (hchain : e.chainOutcomes s.pending = Alike)
    (hhandles : e.handlesNegation =
      if method.anchor?.isSome then (do return !(← e.isClosed)) else return false)
    (htype : c.staticType? s.neutral e = c.staticType? s.neutral (.staticCall method []))
    (hneutral : c.term s.neutral e = c.withMembers s.neutral e (c.closedOr s.neutral e w))
    (hunderNot : c.term s.underNot e = c.withMembers s.underNot e (c.closedOr s.underNot e v))
    (hfinds : method.anchor?.isSome = true → Agree (Term.Related Opposite) w v)
    (hother : method.anchor? = none → Agree (Term.Related Alike) w v) : c.Reacts s e := by
  constructor
  · intro hs
    have hs' : s.neutral.pending = [] ∧ s.underNot.pending = [] := ⟨hs, hs⟩
    rw [withMembers_nil hs'.1] at hneutral
    rw [withMembers_nil hs'.2] at hunderNot
    rw [houtcomes]
    -- A search is negated where it is written; a function and a literal stand within a `NOT`.
    by_cases h : method.anchor?.isSome = true ∧ e.isClosed = .ok false
    · obtain ⟨hanchor, hclosed⟩ := h
      refine condition_agree_of_handles (by rw [hhandles, hanchor, hclosed]; rfl) ?_
      rw [hneutral, hunderNot]
      refine closedOr_agree (fun hc => ?_) fun _ => hfinds hanchor
      exact absurd (hclosed.symm.trans hc) (by simp)
    · refine condition_agree_of_wraps ?_ ?_ fun a b => Term.related_not_of_alike
      · intro b hb
        rw [hhandles] at hb
        cases hanchor : method.anchor? <;> cases hclosed : e.isClosed <;>
          simp_all [bind, Except.bind, pure, Except.pure]
      · rw [hneutral, hunderNot]
        refine closedOr_agree (fun _ => Term.related_refl) fun hclosed => hother ?_
        exact Option.not_isSome_iff_eq_none.1 fun hanchor => h ⟨hanchor, hclosed⟩
  · intro hs
    rw [hchain, hneutral, hunderNot]
    refine withMembers_agree hs (fun _ => Term.related_refl) (fun type _ hknown => ?_)
      fun a b type m n hab hm hn _ => members_alike hab hm hn
    have hanchor : method.anchor? = none := anchor?_eq_none (htype.symm.trans hknown)
    exact closedOr_agree (fun _ => Term.related_refl) fun _ => hother hanchor

/-- No members are taken of the terms of nodes whose type is never known. -/
theorem untyped_agree (hs : s.pending ≠ []) (htype : c.staticType? s.neutral e = none) :
    Agree (Term.Related Alike) (c.withMembers s.neutral e w) (c.withMembers s.underNot e v) := by
  refine withMembers_agree (R := Term.Related Alike) hs (fun _ => Term.related_refl) ?_
    fun a b type m n hab hm hn _ => members_alike hab hm hn
  intro type _ hsome
  rw [htype] at hsome
  cases hsome

theorem reacts_logical {op : BinaryOp} {operator : Sql.Operator} {left right : Expr}
    (hop : op = .and ∧ operator = .and ∨ op = .or ∧ operator = .or)
    (hleft : c.Reacts s.isolated left) (hright : c.Reacts s.isolated right) :
    c.Reacts s (.binary op left right) := by
  have hneutral : c.term s.neutral (.binary op left right) =
      c.withMembers s.neutral (.binary op left right) (do
        let l ← c.condition s.isolated.neutral left
        let r ← c.condition s.isolated.neutral right
        return .operation l operator r) := by
    rcases hop with ⟨rfl, rfl⟩ | ⟨rfl, rfl⟩ <;> rfl
  have hunderNot : c.term s.underNot (.binary op left right) =
      c.withMembers s.underNot (.binary op left right) (do
        let l ← c.condition s.isolated.underNot left
        let r ← c.condition s.isolated.underNot right
        return .operation l operator.invert r) := by
    rcases hop with ⟨rfl, rfl⟩ | ⟨rfl, rfl⟩ <;> rfl
  have hlogical : op.isLogical = true := by
    rcases hop with ⟨rfl, -⟩ | ⟨rfl, -⟩ <;> rfl
  constructor
  · intro hs
    have hs' : s.neutral.pending = [] ∧ s.underNot.pending = [] := ⟨hs, hs⟩
    refine condition_agree_of_handles (by rw [Expr.handlesNegation, hlogical]; rfl) ?_
    rw [hneutral, hunderNot, withMembers_nil hs'.1, withMembers_nil hs'.2]
    -- Both operands are conditions themselves, under the same negations as the connective.
    refine Agree.bind (hleft.1 rfl) fun a b hab => Agree.bind (hright.1 rfl) fun a' b' hab' => ?_
    refine Agree.pure ?_
    rcases hop with ⟨rfl, rfl⟩ | ⟨rfl, rfl⟩
    · exact Term.related_and hab hab'
    · exact Term.related_or hab hab'
  · intro hs
    rw [hneutral, hunderNot]
    have hchain : (Expr.binary op left right).chainOutcomes s.pending = Alike := rfl
    rw [hchain]
    refine untyped_agree hs ?_
    rcases hop with ⟨rfl, -⟩ | ⟨rfl, -⟩ <;> rfl

theorem arithmetic_underNot {op : BinaryOp} {operator : Sql.Operator} {left right : Expr} :
    c.arithmetic s.underNot op operator left right w v =
      c.arithmetic s.neutral op operator left right w v := by
  unfold arithmetic
  have htype := fun e => c.staticType?_congr (show s.underNot.binders = s.neutral.binders from rfl) e
  rw [htype, htype]

theorem reacts_comparison {op : BinaryOp} {operator : Sql.Operator} {test : Ordering → Bool}
    {left right : Expr} (hop : op.isComparison = true) (hlogical : op.isLogical = false)
    (hoperator : Sql.Operator.ofBinary? op = some operator)
    (htest : operator.ordering? = some test) : c.Reacts s (.binary op left right) := by
  have hneutral : c.term s.neutral (.binary op left right) =
      c.withMembers s.neutral (.binary op left right) (c.comparison operator left right
        (c.term s.isolated.neutral left) (c.term s.isolated.neutral right)) := by
    simp only [term, hoperator, hlogical, hop]
    rfl
  have hunderNot : c.term s.underNot (.binary op left right) =
      c.withMembers s.underNot (.binary op left right) (c.comparison operator.invert left right
        (c.term s.isolated.neutral left) (c.term s.isolated.neutral right)) := by
    simp only [term, hoperator, hlogical, hop]
    rfl
  have houtcomes : (Expr.binary op left right).outcomes = Opposite := by
    cases op <;> first | rfl | cases hop
  constructor
  · intro hs
    have hs' : s.neutral.pending = [] ∧ s.underNot.pending = [] := ⟨hs, hs⟩
    refine condition_agree_of_handles (by rw [Expr.handlesNegation, hlogical, hop]; rfl) ?_
    rw [hneutral, hunderNot, withMembers_nil hs'.1, withMembers_nil hs'.2, houtcomes]
    exact comparison_agree htest
  · intro hs
    rw [hneutral, hunderNot]
    refine untyped_agree hs ?_
    cases op <;> first | rfl | cases hop

theorem reacts_binary {op : BinaryOp} {left right : Expr} (hleft : c.Reacts s.isolated left)
    (hright : c.Reacts s.isolated right) : c.Reacts s (.binary op left right) := by
  cases op with
  | and => exact reacts_logical (.inl ⟨rfl, rfl⟩) hleft hright
  | or => exact reacts_logical (.inr ⟨rfl, rfl⟩) hleft hright
  | equal | notEqual | less | lessOrEqual | greater | greaterOrEqual =>
    exact reacts_comparison rfl rfl rfl rfl
  | subtract | multiply | divide | modulo | index =>
    exact reacts_of_fixed rfl rfl rfl rfl
  | add =>
    refine reacts_of_fixed rfl rfl rfl ?_
    show c.withMembers s.underNot _ (c.arithmetic s.underNot .add .add left right
      (c.term s.isolated.neutral left) (c.term s.isolated.neutral right)) = _
    rw [withMembers_underNot, arithmetic_underNot]
    rfl

theorem reacts_not {operand : Expr} (h : c.Reacts s.isolated operand) :
    c.Reacts s (.unary .not operand) := by
  have hneutral : c.term s.neutral (.unary .not operand) =
      c.withMembers s.neutral (.unary .not operand) (c.condition s.isolated.underNot operand) := rfl
  have hunderNot : c.term s.underNot (.unary .not operand) =
      c.withMembers s.underNot (.unary .not operand) (c.condition s.isolated.neutral operand) := rfl
  constructor
  · intro hs
    have hs' : s.neutral.pending = [] ∧ s.underNot.pending = [] := ⟨hs, hs⟩
    refine condition_agree_of_handles rfl ?_
    rw [hneutral, hunderNot, withMembers_nil hs'.1, withMembers_nil hs'.2]
    -- One more negation makes even what was odd, so the two walks of the operand change places.
    exact (h.1 rfl).symm.mono fun a b hba => hba.swap
  · intro hs
    rw [hneutral, hunderNot]
    exact untyped_agree hs rfl

theorem reacts_member {owner : Expr} {type name : String}
    (h : c.Reacts (s.withMember name) owner) : c.Reacts s (.member owner type name) := by
  constructor
  · intro hs
    -- The chain ends here, so its owner is asked about this member alone.
    have hchain : (s.withMember name).pending = [name] := by rw [Scope.withMember, hs]
    have hagree := h.2 (by rw [hchain]; exact List.cons_ne_nil _ _)
    rw [hchain] at hagree
    refine condition_agree_of_wraps ?_ hagree fun a b => Term.related_not
    intro b hb
    exact (Except.ok.inj hb).symm
  · intro _
    exact h.2 (List.cons_ne_nil _ _)

theorem reacts_conditional {test ifTrue ifFalse : Expr} (hTrue : c.Reacts s.isolated ifTrue)
    (hFalse : c.Reacts s.isolated ifFalse) : c.Reacts s (.conditional test ifTrue ifFalse) := by
  have hneutral : c.term s.neutral (.conditional test ifTrue ifFalse) =
      c.withMembers s.neutral (.conditional test ifTrue ifFalse) (do
        let t ← c.condition s.isolated.neutral test
        let a ← c.condition s.isolated.neutral ifTrue
        let b ← c.condition s.isolated.neutral ifFalse
        return .conditional t a b) := rfl
  have hunderNot : c.term s.underNot (.conditional test ifTrue ifFalse) =
      c.withMembers s.underNot (.conditional test ifTrue ifFalse) (do
        let t ← c.condition s.isolated.neutral test
        let a ← c.condition s.isolated.underNot ifTrue
        let b ← c.condition s.isolated.underNot ifFalse
        return .conditional t a b) := rfl
  have hbranches : Agree (Term.Related (ifTrue.outcomes.union ifFalse.outcomes))
      (do
        let t ← c.condition s.isolated.neutral test
        let a ← c.condition s.isolated.neutral ifTrue
        let b ← c.condition s.isolated.neutral ifFalse
        return .conditional t a b)
      (do
        let t ← c.condition s.isolated.neutral test
        let a ← c.condition s.isolated.underNot ifTrue
        let b ← c.condition s.isolated.underNot ifFalse
        return .conditional t a b) := by
    refine Agree.bind_same fun t => Agree.bind (hTrue.1 rfl) fun a b hab =>
      Agree.bind (hFalse.1 rfl) fun a' b' hab' => Agree.pure ?_
    exact Term.related_conditional hab hab'
  constructor
  · intro hs
    have hs' : s.neutral.pending = [] ∧ s.underNot.pending = [] := ⟨hs, hs⟩
    refine condition_agree_of_handles rfl ?_
    rw [hneutral, hunderNot, withMembers_nil hs'.1, withMembers_nil hs'.2]
    exact hbranches
  · intro hs
    rw [hneutral, hunderNot, Expr.chainOutcomes]
    -- Here the branches inherit the negations, although the members are taken of their value.
    refine withMembers_agree hs (fun hclosed => ?_) (fun _ _ _ => hbranches) ?_
    · rw [hclosed]
      exact Term.related_refl
    · intro a b type m n hab hm hn hopen
      rw [hopen]
      exact scalarMembers_agree hab hm hn

theorem reacts_lambda {params : List Param} {body : Expr} (h : ∀ s : Scope, c.Reacts s body) :
    c.Reacts s (.lambda params body) := by
  constructor
  · intro hs
    have hs' : s.neutral.pending = [] ∧ s.underNot.pending = [] := ⟨hs, hs⟩
    refine condition_agree_of_handles rfl ?_
    rw [term, term, withMembers_nil hs'.1, withMembers_nil hs'.2]
    cases params with
    | nil => exact Agree.throw
    | cons p rest =>
      cases rest with
      | cons => exact Agree.throw
      -- The body is walked with one more binder, which the negations do not depend on.
      | nil =>
        exact (h { s.isolated with binders := (p.name, p.model) :: s.binders }).1 rfl
  · intro hs
    show Agree (Term.Related Alike) _ _
    rw [term, term]
    exact untyped_agree hs rfl

/-- The values of every condition are one of its outcomes. -/
theorem reacts : ∀ (e : Expr) (s : Scope), c.Reacts s e
  | .constant .., _ | .staticMember .., _ | .param .., _ | .unary .negate _, _ | .new .., _
  | .array .., _ => reacts_of_fixed rfl rfl rfl rfl
  | .unary .convert operand, s => reacts operand s
  | .unary .not operand, s => reacts_not (reacts operand s.isolated)
  | .binary _ left right, s => reacts_binary (reacts left s.isolated) (reacts right s.isolated)
  | .member owner _ name, s => reacts_member (reacts owner (s.withMember name))
  | .call _ _ [], _ =>
    reacts_of_call rfl rfl rfl rfl rfl rfl callWithoutArgs_agree
      fun _ => Agree.refl Term.related_refl
  | .call _ _ [_], _ =>
    reacts_of_call rfl rfl rfl rfl rfl rfl (fun _ => callWithArg_agree)
      fun hmethod _ _ _ _ _ ha => (callWithArg_throws hmethod ha).elim
  | .staticCall _ [_, _], _ =>
    reacts_of_call rfl rfl rfl rfl rfl rfl
      (fun _ => Agree.ite (fun _ => inList_agree) fun _ => Agree.throw)
      fun hmethod =>
        Agree.ite (fun h => (Method.anchor?_contains h.1 hmethod).elim) fun _ => Agree.throw
  | .call _ _ (_ :: _ :: _), _ =>
    reacts_of_call rfl rfl rfl rfl rfl rfl (fun _ => Agree.throw) fun _ => Agree.throw
  | .staticCall _ [], _ =>
    reacts_of_call rfl rfl rfl rfl rfl rfl (fun _ => Agree.throw) fun _ => Agree.throw
  | .staticCall _ [_], _ =>
    reacts_of_call rfl rfl rfl rfl rfl rfl (fun _ => Agree.throw) fun _ => Agree.throw
  | .staticCall _ (_ :: _ :: _ :: _), _ =>
    reacts_of_call rfl rfl rfl rfl rfl rfl (fun _ => Agree.throw) fun _ => Agree.throw
  | .conditional _ ifTrue ifFalse, s =>
    reacts_conditional (reacts ifTrue s.isolated) (reacts ifFalse s.isolated)
  | .lambda _ body, _ => reacts_lambda (reacts body)

theorem condition_agree {t t' t'' : JoinTree} {even odd : Term} (hs : s.pending = [])
    (heven : (c.condition s.neutral e).Runs t even t')
    (hodd : (c.condition s.underNot e).Runs t odd t'') :
    t' = t'' ∧ Term.Related e.outcomes even odd :=
  (reacts e s).1 hs t even t' odd t'' heven hodd

end Context

/-! ### Negated conditions and filters -/

/-- A request with another filter. -/
def Request.filtered (r : Request) (e : Expr) : Request :=
  { r with filter := some e }

namespace Compiler

variable {c : Compiler} {p : Param} {e : Expr} {f g : Option Term} {t t' t'' : JoinTree}

/-- The filter of a negated body is the body under one negation. -/
theorem runs_filter_not : (c.filter (some (.lambda [p] (.unary .not e)))).Runs t f t' ↔
    ∃ a, (c.context.condition (Scope.over p).underNot e).Runs t a t' ∧
      f = some a.unparenthesized := by
  rw [runs_filter_lambda]
  show (∃ a, (c.context.condition (Scope.over p).neutral _).Runs t a t' ∧ _) ↔ _
  rw [Context.condition_neutral]
  rfl

/-- A filter and its negation are built over the same joins, and select no row in common. -/
theorem disjoint_of_flipped {r : Request} {q q' : Sql.Query} (hflipped : e.reaction = .flipped)
    (hq : c.build (r.filtered (.lambda [p] e)) = .ok q)
    (hq' : c.build (r.filtered (.lambda [p] (.unary .not e))) = .ok q') :
    q.joins = q'.joins ∧ ∃ f g, q.filter = some f ∧ q'.filter = some g ∧
      ∀ db row, f.TypedOn db row → g.TypedOn db row →
        ¬ (f.truth db row = .yes ∧ g.truth db row = .yes) := by
  obtain ⟨root, f, t, order, t₁, columns, hroot, hf, horder, hcolumns, rfl⟩ :=
    build_eq_ok_iff.1 hq
  obtain ⟨root', g, t', order', t₁', columns', hroot', hg, horder', hcolumns', rfl⟩ :=
    build_eq_ok_iff.1 hq'
  obtain rfl : root = root' := Except.ok.inj (hroot.symm.trans hroot')
  -- The filters leave one tree, and what is built after them does not look at them.
  obtain ⟨a, ha, rfl⟩ := runs_filter_lambda.1 hf
  obtain ⟨b, hb, rfl⟩ := runs_filter_not.1 hg
  obtain ⟨rfl, hab⟩ := Context.condition_agree rfl ha hb
  obtain ⟨rfl, rfl⟩ := horder.unique horder'
  obtain ⟨-, htree⟩ := hcolumns.unique hcolumns'
  refine ⟨congrArg JoinTree.joins htree, _, _, rfl, rfl, fun db row hta htb => ?_⟩
  rw [Term.typedOn_unparenthesized] at hta htb
  have hopposite := (e.reaction_describes.eq_flipped_iff.1 hflipped) _ _ (hab db row hta htb)
  obtain ⟨x, hx, hy⟩ := hopposite
  rw [Term.truth_unparenthesized, Term.truth_unparenthesized, Term.truth, Term.truth, hx, hy,
    Truth.ofValue_toValue, Truth.ofValue_toValue]
  rintro ⟨rfl, hno⟩
  cases hno

/-- An odd number of negations around a condition. The values of a condition without and with the
negations are one of its outcomes. Where no chain of the member `Value` on a conditional is in the
way (`flipped`), the one is the `NOT` of the other on every row, and a filter and its negation never
select the same row; no other condition has such outcomes only. Where the condition is such a chain
(`kept`), the value stays as it is. -/
theorem negation_spec (c : Compiler) (e : Expr) :
    (∀ (s : Scope) (t t' t'' : JoinTree) (even odd : Term), s.pending = [] →
      (c.context.condition s.neutral e).Runs t even t' →
      (c.context.condition s.underNot e).Runs t odd t'' →
      t' = t'' ∧ ∀ db row, even.TypedOn db row → odd.TypedOn db row →
        e.outcomes (even.eval db row) (odd.eval db row) ∧
        (e.reaction = .flipped → even.eval db row = (even.truth db row).toValue ∧
          odd.eval db row = (even.truth db row).not.toValue) ∧
        (e.reaction = .kept → even.eval db row = (even.truth db row).toValue ∧
          odd.eval db row = (even.truth db row).toValue)) ∧
    ((e.reaction = .flipped ↔ ∀ v w, e.outcomes v w → Opposite v w) ∧
      (e.reaction = .kept ↔ ∀ v w, e.outcomes v w → Same v w)) ∧
    (e.reaction = .flipped → ∀ (r : Request) (p : Param) (q q' : Sql.Query),
      c.build (r.filtered (.lambda [p] e)) = .ok q →
      c.build (r.filtered (.lambda [p] (.unary .not e))) = .ok q' →
      q.joins = q'.joins ∧ ∃ f g, q.filter = some f ∧ q'.filter = some g ∧
        ∀ db row, f.TypedOn db row → g.TypedOn db row →
          ¬ (f.truth db row = .yes ∧ g.truth db row = .yes)) := by
  have hflipped := e.reaction_describes.eq_flipped_iff
  have hkept := e.reaction_describes.eq_kept_iff
  refine ⟨?_, ⟨hflipped, hkept⟩, fun h r p q q' hq hq' => disjoint_of_flipped h hq hq'⟩
  intro s t t' t'' even odd hs heven hodd
  obtain ⟨htree, hrelated⟩ := Context.condition_agree hs heven hodd
  refine ⟨htree, fun db row hte hto => ?_⟩
  have hvalues := hrelated db row hte hto
  refine ⟨hvalues, fun hreaction => ?_, fun hreaction => ?_⟩
  · obtain ⟨x, hx, hy⟩ := hflipped.1 hreaction _ _ hvalues
    rw [Term.truth, hx, hy, Truth.ofValue_toValue]
    exact ⟨rfl, rfl⟩
  · obtain ⟨x, hx, hy⟩ := hkept.1 hreaction _ _ hvalues
    rw [Term.truth, hx, hy, Truth.ofValue_toValue]
    exact ⟨rfl, rfl⟩

/-- Not to be an active person over three is to be three at most, or not active. -/
theorem negation_spec_and :
    let e : Expr := .binary .and
      (.binary .greater (.memberOf (.param "p" "Person") "Age") (.ofValue (.int 3)))
      (.memberOf (.param "p" "Person") "IsActive")
    ∃ even odd t, (sample.context.condition (Scope.over ⟨"p", "Person"⟩).neutral e).Runs
        (.ofModel samplePerson "t") even t ∧
      (sample.context.condition (Scope.over ⟨"p", "Person"⟩).underNot e).Runs
        (.ofModel samplePerson "t") odd t ∧
      ∀ db row, even.TypedOn db row → odd.TypedOn db row →
        odd.eval db row = (even.truth db row).not.toValue := by
  intro e
  refine ⟨.operation (.operation (.column "t0" "Age") .greater (.literal (.int 3))) .and
    (.column "t0" "IsActive"),
    .operation (.operation (.column "t0" "Age") .lessOrEqual (.literal (.int 3))) .or
      (.not (.column "t0" "IsActive")), .ofModel samplePerson "t", rfl, rfl, ?_⟩
  intro db row hte hto
  have hspec := (negation_spec sample e).1 (Scope.over ⟨"p", "Person"⟩) (.ofModel samplePerson "t")
    _ _ _ _ rfl rfl rfl
  exact ((hspec.2 db row hte hto).2.1 (by decide)).2

/-- A chain of the member `Value` on a conditional is negated in its branches and as a whole. -/
def negatedChain : Expr :=
  .memberOf (.conditional
    (.binary .greater (.memberOf (.param "p" "Person") "Age") (.ofValue (.int 3)))
    (.memberOf (.param "p" "Person") "IsActive") (.memberOf (.param "p" "Person") "IsActive"))
    "Value"

/-- Active people are selected by the chain, and by its negation as well. -/
theorem negation_fails : ∃ even odd t,
    (sample.context.condition (Scope.over ⟨"p", "Person"⟩).neutral negatedChain).Runs
      (.ofModel samplePerson "t") even t ∧
    (sample.context.condition (Scope.over ⟨"p", "Person"⟩).underNot negatedChain).Runs
      (.ofModel samplePerson "t") odd t ∧
    ∃ (db : Database) (row : Row), even.TypedOn db row ∧ odd.TypedOn db row ∧
      even.eval db row = .bool true ∧ odd.eval db row = .bool true := by
  refine ⟨.conditional (.operation (.column "t0" "Age") .greater (.literal (.int 3)))
    (.column "t0" "IsActive") (.column "t0" "IsActive"), .not (.conditional
      (.operation (.column "t0" "Age") .greater (.literal (.int 3)))
      (.not (.column "t0" "IsActive")) (.not (.column "t0" "IsActive"))),
    .ofModel samplePerson "t", rfl, rfl, default,
    fun _ name => if name = "IsActive" then .bool true else .null, ?_⟩
  have hyes : Value.IsCondition (.bool true) := ⟨.yes, rfl⟩
  have hno : Value.IsCondition (.bool false) := ⟨.no, rfl⟩
  simp [Term.operation, Term.TypedOn, Term.eval, Truth.ofValue, Truth.ofBool, Truth.not,
    Truth.toValue, hyes, hno]

end Compiler

end PredicateSql
