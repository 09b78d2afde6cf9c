import PredicateSql.Expr.Closed

/-!
# The parts of expressions

* `Expr.operands`: the expressions that an expression is made of. `Expr.IsPartOf`: an expression
  within another one, at any depth.
* `Expr.height_eq`: the height of an expression, told by those that it is made of.
* `Expr.HasLambda`, `Expr.HasParam`: a lambda or a parameter stands within the expression.
  `Expr.isClosed_iff`: closed expressions are those in which neither stands.
* `Expr.unbound`: the parameters and lambdas of an expression from the left. `Expr.isClosed_eq`: the
  first of them decides whether the expression is closed.
* `Expr.IsOver`: the expression has one parameter at most, and no lambdas.
* `Expr.chains`: the members that are taken of parameters, with what is bound around them.
-/

namespace PredicateSql.Expr

variable {e x : Expr} {p : Param}

/-! ### Parts -/

/-- The expressions that an expression is made of, in the order in which they are written. -/
def operands : Expr → List Expr
  | .binary _ left right => [left, right]
  | .unary _ operand => [operand]
  | .member owner _ _ => [owner]
  | .staticMember .. | .constant .. | .param .. => []
  | .call target _ args => target :: args
  | .staticCall _ args | .new _ args | .array _ args => args
  | .conditional test ifTrue ifFalse => [test, ifTrue, ifFalse]
  | .lambda _ body => [body]

/-- An expression stands within another one. -/
inductive IsPartOf (x : Expr) : Expr → Prop
  | self : IsPartOf x x
  | operand {e operand : Expr} (h : operand ∈ e.operands) (hx : IsPartOf x operand) : IsPartOf x e

theorem sizeOf_lt_of_operand {operand : Expr} (h : operand ∈ e.operands) :
    sizeOf operand < sizeOf e := by
  cases e with
  | staticCall | new | array =>
    have hlt := List.sizeOf_lt_of_mem h
    simp only [operands] at hlt
    simp only [staticCall.sizeOf_spec, new.sizeOf_spec, array.sizeOf_spec]
    omega
  | call target method args =>
    rcases List.mem_cons.1 h with rfl | h
    · simp only [call.sizeOf_spec]
      omega
    · have hlt := List.sizeOf_lt_of_mem h
      simp only [call.sizeOf_spec]
      omega
  | staticMember | constant | param => cases h
  | binary | unary | member | conditional | lambda =>
    simp only [operands, List.mem_cons, List.not_mem_nil, or_false] at h
    grind

/-- What holds of an expression if it holds of those that it is made of holds of all. -/
theorem induction_operands {P : Expr → Prop}
    (h : ∀ e : Expr, (∀ operand ∈ e.operands, P operand) → P e) (e : Expr) : P e :=
  h e fun operand _ => induction_operands h operand
termination_by e
decreasing_by exact sizeOf_lt_of_operand ‹_›

theorem isPartOf_iff : x.IsPartOf e ↔ x = e ∨ ∃ operand ∈ e.operands, x.IsPartOf operand := by
  constructor
  · rintro (_ | ⟨hoperand, hx⟩)
    · exact .inl rfl
    · exact .inr ⟨_, hoperand, hx⟩
  · rintro (rfl | ⟨operand, hoperand, hx⟩)
    · exact .self
    · exact .operand hoperand hx

/-! ### Heights -/

theorem height_eq (e : Expr) : e.height = 1 + heightOfAll e.operands := by
  cases e <;> simp [height, operands, heightOfAll]

theorem height_pos : 0 < e.height := by
  rw [height_eq]
  omega

/-! ### Lambdas -/

/-- A lambda stands within the expression, or is the expression. -/
def HasLambda (e : Expr) : Prop :=
  ∃ params body, (Expr.lambda params body).IsPartOf e

theorem HasLambda.of_operand {operand : Expr} (h : operand.HasLambda)
    (hoperand : operand ∈ e.operands) : e.HasLambda := by
  obtain ⟨params, body, hpart⟩ := h
  exact ⟨params, body, .operand hoperand hpart⟩

theorem hasLambda_lambda (params : List Param) (body : Expr) : (lambda params body).HasLambda :=
  ⟨params, body, .self⟩

/-! ### Closed expressions -/

/-- A parameter stands within the expression, or is the expression. -/
def HasParam (e : Expr) : Prop :=
  ∃ name model, (Expr.param name model).IsPartOf e

theorem HasParam.of_operand {operand : Expr} (h : operand.HasParam)
    (hoperand : operand ∈ e.operands) : e.HasParam := by
  obtain ⟨name, model, hpart⟩ := h
  exact ⟨name, model, .operand hoperand hpart⟩

theorem ite_isClosed_eq_ok {x y : Except QueryError Bool} :
    (do if ← x then y else return false : Except QueryError Bool) = .ok true ↔
      x = .ok true ∧ y = .ok true := by
  rcases x with err | _ | _ <;> simp [bind, Except.bind, pure, Except.pure]

theorem areClosed_eq_ok {items : List Expr} :
    areClosed items = .ok true ↔ ∀ e ∈ items, e.isClosed = .ok true := by
  induction items with
  | nil => simp [areClosed, pure, Except.pure]
  | cons e rest ih => rw [areClosed, ite_isClosed_eq_ok, ih, List.forall_mem_cons]

/-- An expression is closed if it is no parameter and no lambda and what it is made of is closed. -/
theorem isClosed_eq_ok : e.isClosed = .ok true ↔
    (∀ name model, e ≠ .param name model) ∧ (∀ params body, e ≠ .lambda params body) ∧
      ∀ operand ∈ e.operands, operand.isClosed = .ok true := by
  cases e with
  | binary | conditional => simp [isClosed, operands, ite_isClosed_eq_ok]
  | call => simp [isClosed, operands, ite_isClosed_eq_ok, areClosed_eq_ok]
  | staticCall | new | array => simp [isClosed, operands, areClosed_eq_ok]
  | unary | member => simp [isClosed, operands]
  | staticMember | constant | param => simp [isClosed, operands, pure, Except.pure]
  | lambda => simp [isClosed, throw, throwThe, MonadExceptOf.throw]

/-- What stands in a closed expression is closed. -/
theorem IsPartOf.isClosed (h : x.IsPartOf e) (he : e.isClosed = .ok true) :
    x.isClosed = .ok true := by
  induction h with
  | self => exact he
  | operand hoperand _ ih => exact ih ((isClosed_eq_ok.1 he).2.2 _ hoperand)

/-- Closed expressions are those in which neither a parameter nor a lambda stands. -/
theorem isClosed_iff : e.isClosed = .ok true ↔ ¬ e.HasParam ∧ ¬ e.HasLambda := by
  constructor
  · intro h
    refine ⟨fun ⟨name, model, hpart⟩ => ?_, fun ⟨params, body, hpart⟩ => ?_⟩
    · exact (isClosed_eq_ok.1 (hpart.isClosed h)).1 name model rfl
    · exact (isClosed_eq_ok.1 (hpart.isClosed h)).2.1 params body rfl
  · rintro ⟨hparam, hlambda⟩
    induction e using induction_operands with
    | h e ih =>
      refine isClosed_eq_ok.2 ⟨fun name model he => ?_, fun params body he => ?_, ?_⟩
      · exact hparam ⟨name, model, he ▸ .self⟩
      · exact hlambda ⟨params, body, he ▸ .self⟩
      · intro operand hoperand
        exact ih operand hoperand (fun h => hparam (h.of_operand hoperand))
          fun h => hlambda (h.of_operand hoperand)

/-! ### What decides -/

mutual

/-- The parameters and lambdas of an expression, from the left. Nothing within a lambda counts. -/
def unbound : Expr → List Expr
  | .param name model => [.param name model]
  | .lambda params body => [.lambda params body]
  | .binary _ left right => left.unbound ++ right.unbound
  | .unary _ operand => operand.unbound
  | .member owner _ _ => owner.unbound
  | .staticMember .. | .constant .. => []
  | .call target _ args => target.unbound ++ unboundOfAll args
  | .staticCall _ args | .new _ args | .array _ args => unboundOfAll args
  | .conditional test ifTrue ifFalse => test.unbound ++ (ifTrue.unbound ++ ifFalse.unbound)

/-- The parameters and lambdas of some expressions, from the left. -/
def unboundOfAll : List Expr → List Expr
  | [] => []
  | e :: rest => e.unbound ++ unboundOfAll rest

end

/-- What is known of an expression with these parameters and lambdas. The first one decides: with a
parameter the expression is open, and a lambda cannot stand there. -/
def verdict : List Expr → Except QueryError Bool
  | [] => return true
  | .lambda .. :: _ => throw (.unsupportedNode "Lambda")
  | _ :: _ => return false

/-- The expression is a parameter or a lambda. -/
def IsBinding (e : Expr) : Prop :=
  (∃ name model, e = .param name model) ∨ ∃ params body, e = .lambda params body

theorem ite_verdict (found found' : List Expr) :
    (do if ← verdict found then verdict found' else return false) = verdict (found ++ found') := by
  cases found with
  | nil => rfl
  | cons x rest => cases x <;> rfl

mutual

/-- Whether an expression is closed is decided by the first parameter or lambda in it. -/
theorem isClosed_eq : ∀ e : Expr, e.isClosed = verdict e.unbound
  | .param .. | .lambda .. | .staticMember .. | .constant .. => rfl
  | .unary _ operand => isClosed_eq operand
  | .member owner _ _ => isClosed_eq owner
  | .binary _ left right => by
    rw [isClosed, unbound, isClosed_eq left, isClosed_eq right, ite_verdict]
  | .call target _ args => by
    rw [isClosed, unbound, isClosed_eq target, areClosed_eq args, ite_verdict]
  | .staticCall _ args | .new _ args | .array _ args => areClosed_eq args
  | .conditional test ifTrue ifFalse => by
    rw [isClosed, unbound, isClosed_eq test, isClosed_eq ifTrue, isClosed_eq ifFalse, ite_verdict,
      ite_verdict]

theorem areClosed_eq : ∀ items : List Expr, areClosed items = verdict (unboundOfAll items)
  | [] => rfl
  | e :: rest => by rw [areClosed, unboundOfAll, isClosed_eq e, areClosed_eq rest, ite_verdict]

end

theorem unboundOfAll_eq (items : List Expr) : unboundOfAll items = items.flatMap unbound := by
  induction items with
  | nil => rfl
  | cons e rest ih => rw [unboundOfAll, ih, List.flatMap_cons]

/-- Only parameters and lambdas are found, and only where they stand. -/
theorem mem_unbound (h : x ∈ e.unbound) : x.IsPartOf e ∧ x.IsBinding := by
  induction e using induction_operands with
  | h e ih =>
    have hoperands : x ∈ e.operands.flatMap unbound → x.IsPartOf e ∧ x.IsBinding := by
      intro hx
      obtain ⟨operand, hoperand, hx⟩ := List.mem_flatMap.1 hx
      obtain ⟨hpart, hbinding⟩ := ih operand hoperand hx
      exact ⟨.operand hoperand hpart, hbinding⟩
    cases e with
    | param name model =>
      obtain rfl := List.mem_singleton.1 h
      exact ⟨.self, .inl ⟨name, model, rfl⟩⟩
    | lambda params body =>
      obtain rfl := List.mem_singleton.1 h
      exact ⟨.self, .inr ⟨params, body, rfl⟩⟩
    | staticMember | constant => cases h
    | _ => exact hoperands (by simpa [unbound, operands, unboundOfAll_eq] using h)

/-- The three answers, and what stands in the expression if it is not closed. -/
theorem isClosed_cases (e : Expr) :
    e.isClosed = .ok true ∨ e.isClosed = .ok false ∧ e.HasParam ∨
      e.isClosed = .error (.unsupportedNode "Lambda") ∧ e.HasLambda := by
  rw [isClosed_eq]
  cases hfound : e.unbound with
  | nil => exact .inl rfl
  | cons x rest =>
    have hx : x ∈ e.unbound := by simp [hfound]
    obtain ⟨hpart, ⟨name, model, rfl⟩ | ⟨params, body, rfl⟩⟩ := mem_unbound hx
    · exact .inr (.inl ⟨rfl, name, model, hpart⟩)
    · exact .inr (.inr ⟨rfl, params, body, hpart⟩)

/-! ### One parameter -/

/-- There is no parameter but `p` in the expression, and no lambda. -/
structure IsOver (p : Param) (e : Expr) : Prop where
  param : ∀ name model, (Expr.param name model).IsPartOf e → (⟨name, model⟩ : Param) = p
  lambda : ∀ params body, ¬ (Expr.lambda params body).IsPartOf e

theorem isOver_iff : e.IsOver p ↔
    (∀ name model, e = .param name model → (⟨name, model⟩ : Param) = p) ∧
    (∀ params body, e ≠ .lambda params body) ∧ ∀ operand ∈ e.operands, operand.IsOver p := by
  constructor
  · intro h
    refine ⟨fun name model he => ?_, fun params body he => ?_, fun operand hoperand => ⟨?_, ?_⟩⟩
    · exact h.param name model (he ▸ .self)
    · exact h.lambda params body (he ▸ .self)
    · exact fun name model hx => h.param name model (.operand hoperand hx)
    · exact fun params body hx => h.lambda params body (.operand hoperand hx)
  · rintro ⟨hparam, hlambda, hoperands⟩
    refine ⟨fun name model hx => ?_, fun params body hx => ?_⟩
    · rcases isPartOf_iff.1 hx with he | ⟨operand, hoperand, hx⟩
      · exact hparam name model he.symm
      · exact (hoperands operand hoperand).param name model hx
    · rcases isPartOf_iff.1 hx with he | ⟨operand, hoperand, hx⟩
      · exact hlambda params body he.symm
      · exact (hoperands operand hoperand).lambda params body hx

theorem IsOver.operand {operand : Expr} (h : e.IsOver p) (hoperand : operand ∈ e.operands) :
    operand.IsOver p :=
  (isOver_iff.1 h).2.2 operand hoperand

theorem IsOver.not_hasLambda (h : e.IsOver p) : ¬ e.HasLambda :=
  fun ⟨params, body, hpart⟩ => h.lambda params body hpart

/-! ### Chains of members -/

/-- The members that are taken of a parameter, where parameters are bound to models. -/
structure MemberChain where
  binders : List (String × String)
  param : Param
  members : List String

mutual

/-- The chains of members in an expression. The members `after` are taken of the expression. -/
def chains (binders : List (String × String)) (after : List String) : Expr → List MemberChain
  | .param name model => [⟨binders, ⟨name, model⟩, after⟩]
  | .member owner _ name => owner.chains binders (name :: after)
  | .unary .convert operand => operand.chains binders after
  | .unary _ operand => operand.chains binders []
  | .binary _ left right => left.chains binders [] ++ right.chains binders []
  | .staticMember .. | .constant .. => []
  | .call target _ args => target.chains binders [] ++ chainsOfAll binders args
  | .staticCall _ args | .new _ args | .array _ args => chainsOfAll binders args
  | .conditional test ifTrue ifFalse =>
    test.chains binders [] ++ ifTrue.chains binders [] ++ ifFalse.chains binders []
  | .lambda [p] body => body.chains ((p.name, p.model) :: binders) after
  | .lambda _ _ => []

/-- The chains of members in some expressions. -/
def chainsOfAll (binders : List (String × String)) : List Expr → List MemberChain
  | [] => []
  | e :: rest => e.chains binders [] ++ chainsOfAll binders rest

end

mutual

/-- In an expression over one parameter, all members are taken of it. -/
theorem IsOver.chains {binders : List (String × String)} {after : List String} {p : Param} :
    ∀ {e : Expr}, e.IsOver p → ∀ chain ∈ e.chains binders after,
      chain.binders = binders ∧ chain.param = p
  | .param name model, h, chain, hchain => by
    obtain rfl := List.mem_singleton.1 hchain
    exact ⟨rfl, h.param name model .self⟩
  | .member owner _ _, h, chain, hchain =>
    IsOver.chains (h.operand List.mem_cons_self) chain hchain
  | .unary op operand, h, chain, hchain => by
    cases op <;> exact IsOver.chains (h.operand List.mem_cons_self) chain hchain
  | .binary op left right, h, chain, hchain => by
    rcases List.mem_append.1 hchain with hchain | hchain
    · exact IsOver.chains (h.operand (by simp [operands])) chain hchain
    · exact IsOver.chains (h.operand (by simp [operands])) chain hchain
  | .call target method args, h, chain, hchain => by
    rcases List.mem_append.1 hchain with hchain | hchain
    · exact IsOver.chains (h.operand (by simp [operands])) chain hchain
    · exact IsOver.chainsOfAll (fun e he => h.operand (List.mem_cons_of_mem _ he)) chain hchain
  | .staticCall _ args, h, chain, hchain | .new _ args, h, chain, hchain
  | .array _ args, h, chain, hchain =>
    IsOver.chainsOfAll (fun e he => h.operand he) chain hchain
  | .conditional test ifTrue ifFalse, h, chain, hchain => by
    simp only [Expr.chains, List.mem_append, or_assoc] at hchain
    rcases hchain with hchain | hchain | hchain
    all_goals exact IsOver.chains (h.operand (by simp [operands])) chain hchain
  | .lambda params body, h, _, _ => absurd .self (h.lambda params body)

theorem IsOver.chainsOfAll {binders : List (String × String)} {p : Param} :
    ∀ {items : List Expr}, (∀ e ∈ items, e.IsOver p) → ∀ chain ∈ chainsOfAll binders items,
      chain.binders = binders ∧ chain.param = p
  | e :: rest, h, chain, hchain => by
    rcases List.mem_append.1 hchain with hchain | hchain
    · exact IsOver.chains (h e List.mem_cons_self) chain hchain
    · exact IsOver.chainsOfAll (fun e he => h e (List.mem_cons_of_mem _ he)) chain hchain

end

end PredicateSql.Expr
