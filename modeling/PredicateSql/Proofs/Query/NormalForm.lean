import PredicateSql.Proofs.Query.Negation

/-!
# Negation normal form

Negations can be pushed inwards before a condition is made a term, or while it is: the query is the
same.

* `Expr.normalIf`: a condition, or the negation of it, with negations on leaves only.
  `Expr.isNormal_normalIf`: no other negations are left.
* `Context.condition_normalIf`: the walk of a normal form is the walk of the condition under the
  negations that were pushed into it.
* `Compiler.build_normalForm`: a filter and its normal form give the same query or the same error.
-/

namespace PredicateSql

/-! ### Normal forms -/

namespace BinaryOp

/-- The operator that yields the negation: of a connective between negated operands, of a comparison
between the same operands. -/
def complement : BinaryOp → BinaryOp
  | .and => .or
  | .or => .and
  | .equal => .notEqual
  | .notEqual => .equal
  | .less => .greaterOrEqual
  | .greaterOrEqual => .less
  | .lessOrEqual => .greater
  | .greater => .lessOrEqual
  | op => op

/-- The operator, or its complement under a negation. -/
def complementIf (negated : Bool) (op : BinaryOp) : BinaryOp :=
  if negated then op.complement else op

variable {op : BinaryOp} {negated : Bool}

theorem isLogical_complementIf : (op.complementIf negated).isLogical = op.isLogical := by
  cases negated <;> cases op <;> rfl

theorem isComparison_complementIf : (op.complementIf negated).isComparison = op.isComparison := by
  cases negated <;> cases op <;> rfl

/-- The complement of an operator is its complement in SQL as well. -/
theorem exists_complement (h : op ≠ .index) (negated : Bool) :
    ∃ operator, Sql.Operator.ofBinary? op = some operator ∧
      Sql.Operator.ofBinary? (op.complementIf negated) = some (operator.invertIf negated) := by
  cases op with
  | index => exact absurd rfl h
  | _ => exact ⟨_, rfl, by cases negated <;> rfl⟩

end BinaryOp

namespace Expr

/-- The expression, or its negation. -/
def negateIf (negated : Bool) (e : Expr) : Expr :=
  if negated then .unary .not e else e

/-- A condition, or the negation of it, with all negations pushed inwards: through connectives,
branches and the bodies of lambdas, and into comparisons. They stay on all other leaves, and values
are left as they are. -/
def normalIf (negated : Bool) : Expr → Expr
  | .unary .not operand => operand.normalIf (!negated)
  | .binary op left right =>
    if op.isLogical then
      .binary (op.complementIf negated) (left.normalIf negated) (right.normalIf negated)
    else if op.isComparison then .binary (op.complementIf negated) left right
    else (Expr.binary op left right).negateIf negated
  | .conditional test ifTrue ifFalse =>
    .conditional test (ifTrue.normalIf negated) (ifFalse.normalIf negated)
  | .lambda params body => .lambda params (body.normalIf negated)
  | e => e.negateIf negated

/-- The negation normal form of a condition. -/
def normalForm (e : Expr) : Expr :=
  e.normalIf false

example (a b : Expr) : normalForm (.unary .not (.binary .and a (.unary .not b))) =
    .binary .or (a.normalIf true) (b.normalIf false) := rfl

/-- A negation of the expression cannot be pushed any further. -/
def isLeaf : Expr → Bool
  | .unary .not _ | .conditional .. | .lambda .. => false
  | .binary op _ _ => !op.isLogical && !op.isComparison
  | _ => true

/-- Conditions in which only leaves are negated. -/
inductive IsNormal : Expr → Prop
  | leaf {e : Expr} (h : e.isLeaf = true) : IsNormal e
  | negated {e : Expr} (h : e.isLeaf = true) : IsNormal (.unary .not e)
  | comparison {op : BinaryOp} {left right : Expr} (hop : op.isComparison = true) :
    IsNormal (.binary op left right)
  | logical {op : BinaryOp} {left right : Expr} (hop : op.isLogical = true)
    (hleft : IsNormal left) (hright : IsNormal right) : IsNormal (.binary op left right)
  | conditional {test ifTrue ifFalse : Expr} (hTrue : IsNormal ifTrue) (hFalse : IsNormal ifFalse) :
    IsNormal (.conditional test ifTrue ifFalse)
  | lambda {params : List Param} {body : Expr} (h : IsNormal body) : IsNormal (.lambda params body)

theorem isNormal_negateIf {e : Expr} (h : e.isLeaf = true) (negated : Bool) :
    (e.negateIf negated).IsNormal := by
  cases negated with
  | false => exact .leaf h
  | true => exact .negated h

/-- Only leaves are negated in a normal form. -/
theorem isNormal_normalIf (e : Expr) (negated : Bool) : (e.normalIf negated).IsNormal := by
  fun_induction normalIf negated e with
  | case1 negated operand ih => exact ih
  | case2 negated op left right hop ihleft ihright =>
    exact .logical (BinaryOp.isLogical_complementIf.trans hop) ihleft ihright
  | case3 negated op left right _ hop =>
    exact .comparison (BinaryOp.isComparison_complementIf.trans hop)
  | case4 negated op left right hlogical hcomparison =>
    exact isNormal_negateIf (by simp [isLeaf, hlogical, hcomparison]) negated
  | case5 negated test ifTrue ifFalse ihTrue ihFalse => exact .conditional ihTrue ihFalse
  | case6 negated params body ih => exact .lambda ih
  | case7 negated e hnot hbinary hconditional hlambda =>
    refine isNormal_negateIf ?_ negated
    unfold isLeaf
    split
    · exact (hnot _ rfl).elim
    · exact (hconditional _ _ _ rfl).elim
    · exact (hlambda _ _ rfl).elim
    · exact (hbinary _ _ _ rfl).elim
    · rfl

end Expr

/-! ### Walks of normal forms -/

/-- A subtree under an odd number of negations, or under an even one. -/
def Scope.negatedIf (negated : Bool) (s : Scope) : Scope :=
  { s with negated := negated }

theorem Scope.isolated_of_nil {s : Scope} (hs : s.pending = []) : s.isolated = s := by
  rw [isolated, ← hs]

namespace Context

variable {c : Context} {s : Scope} {e : Expr} {negated : Bool}

/-- A condition that accounts for a negation around it is the term of its expression. -/
theorem condition_of_handles (h : e.handlesNegation = .ok true) :
    c.condition s e = c.term s e := by
  unfold condition asCondition
  rw [h]
  cases s.negated <;> simp

/-- A negation changes nothing but the scope of its operand. -/
theorem condition_not (hs : s.pending = []) :
    c.condition (s.negatedIf negated) (.unary .not e) = c.condition (s.negatedIf !negated) e := by
  have hpending : (s.negatedIf negated).pending = [] := hs
  have hscope : (s.negatedIf negated).isolated.inverted = s.negatedIf !negated := by
    rw [Scope.isolated_of_nil hpending]
    rfl
  rw [condition_of_handles rfl, term, withMembers_nil hpending, hscope]
  rfl

theorem condition_negateIf (hs : s.pending = []) :
    c.condition (s.negatedIf false) (e.negateIf negated) = c.condition (s.negatedIf negated) e := by
  cases negated with
  | false => rfl
  | true => exact condition_not hs

/-- A connective of two conditions, which becomes its complement under a negation. -/
theorem condition_logical {op : BinaryOp} {operator : Sql.Operator} {left right : Expr}
    (hs : s.pending = []) (hop : op.isLogical = true)
    (hoperator : Sql.Operator.ofBinary? op = some operator) :
    c.condition s (.binary op left right) = (do
      let a ← c.condition s left
      let b ← c.condition s right
      return .operation a (operator.invertIf s.negated) b) := by
  rw [condition_of_handles (by rw [Expr.handlesNegation, hop]; rfl), term, withMembers_nil hs,
    Scope.isolated_of_nil hs, hoperator, hop]
  rfl

/-- A comparison of two values, which becomes its complement under a negation. -/
theorem condition_comparison {op : BinaryOp} {operator : Sql.Operator} {left right : Expr}
    (hs : s.pending = []) (hop : op.isComparison = true)
    (hoperator : Sql.Operator.ofBinary? op = some operator) :
    c.condition s (.binary op left right) =
      c.comparison (operator.invertIf s.negated) left right (c.term s.neutral left)
        (c.term s.neutral right) := by
  have hlogical : op.isLogical = false := by
    cases op <;> first | rfl | cases hop
  rw [condition_of_handles (by rw [Expr.handlesNegation, hop, Bool.or_true]; rfl), term,
    withMembers_nil hs, Scope.isolated_of_nil hs, hoperator, hlogical, hop]
  rfl

theorem condition_conditional {test ifTrue ifFalse : Expr} (hs : s.pending = []) :
    c.condition s (.conditional test ifTrue ifFalse) = (do
      let a ← c.condition s.neutral test
      let b ← c.condition s ifTrue
      let d ← c.condition s ifFalse
      return .conditional a b d) := by
  rw [condition_of_handles rfl, term, withMembers_nil hs, Scope.isolated_of_nil hs]
  rfl

theorem condition_lambda {params : List Param} {body : Expr} (hs : s.pending = []) :
    c.condition s (.lambda params body) = (do c.condition (← s.enter params) body) := by
  rw [condition_of_handles rfl, term, withMembers_nil hs, Scope.isolated_of_nil hs]
  rfl

/-- A normal form is walked like the condition under the negations that were pushed into it. -/
theorem condition_normalIf (e : Expr) (negated : Bool) : ∀ s : Scope, s.pending = [] →
    c.condition (s.negatedIf false) (e.normalIf negated) =
      c.condition (s.negatedIf negated) e := by
  have hpending : ∀ {s : Scope}, s.pending = [] → ∀ b, (s.negatedIf b).pending = [] :=
    fun hs _ => hs
  fun_induction Expr.normalIf negated e with
  | case1 negated operand ih =>
    intro s hs
    rw [ih s hs, condition_not hs]
  | case2 negated op left right hop ihleft ihright =>
    intro s hs
    have hindex : op ≠ .index := by
      rintro rfl
      cases hop
    obtain ⟨operator, hoperator, hcomplement⟩ := BinaryOp.exists_complement hindex negated
    have hop' : (op.complementIf negated).isLogical = true :=
      BinaryOp.isLogical_complementIf.trans hop
    rw [condition_logical (hpending hs false) hop' hcomplement,
      condition_logical (hpending hs negated) hop hoperator, ihleft s hs, ihright s hs]
    rfl
  | case3 negated op left right _ hop =>
    intro s hs
    have hindex : op ≠ .index := by
      rintro rfl
      cases hop
    obtain ⟨operator, hoperator, hcomplement⟩ := BinaryOp.exists_complement hindex negated
    have hop' : (op.complementIf negated).isComparison = true :=
      BinaryOp.isComparison_complementIf.trans hop
    rw [condition_comparison (hpending hs false) hop' hcomplement,
      condition_comparison (hpending hs negated) hop hoperator]
    rfl
  | case4 negated op left right hlogical hcomparison =>
    intro s hs
    exact condition_negateIf hs
  | case5 negated test ifTrue ifFalse ihTrue ihFalse =>
    intro s hs
    rw [condition_conditional (hpending hs false), condition_conditional (hpending hs negated),
      ihTrue s hs, ihFalse s hs]
    rfl
  | case6 negated params body ih =>
    intro s hs
    rw [condition_lambda (hpending hs false), condition_lambda (hpending hs negated)]
    -- The body is walked with one more binder, which the negations do not depend on.
    cases params with
    | nil => rfl
    | cons p rest =>
      cases rest with
      | cons => rfl
      | nil => exact ih { s with binders := (p.name, p.model) :: s.binders } hs
  | case7 negated e =>
    intro s hs
    exact condition_negateIf hs

end Context

/-! ### Queries of normal forms -/

namespace Compiler

variable {c : Compiler} {r : Request} {e e' : Expr}

/-- Nothing of a filter but its walk matters to the query. -/
theorem build_filtered_congr (h : c.context.term {} e = c.context.term {} e') :
    c.build (r.filtered e) = c.build (r.filtered e') := by
  have hfilter : c.filter (some e) = c.filter (some e') := by rw [filter, filter, h]
  exact build_congr hfilter rfl

/-- The normal form of a filter has negations on leaves only, and gives what the filter gives: the
same query over the same joins, or the same error. -/
theorem build_normalForm (c : Compiler) (r : Request) (e : Expr) :
    e.normalForm.IsNormal ∧
      c.build (r.filtered e.normalForm) = c.build (r.filtered e) := by
  refine ⟨e.isNormal_normalIf false, build_filtered_congr ?_⟩
  -- Nothing is negated around a filter, so its term is its condition.
  have hneutral : ({} : Scope).negatedIf false = Scope.neutral {} := rfl
  have hcondition := c.context.condition_normalIf e false {} rfl
  rwa [hneutral, Context.condition_neutral, Context.condition_neutral] at hcondition

end Compiler

end PredicateSql
