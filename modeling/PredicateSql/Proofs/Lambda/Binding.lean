import PredicateSql.Proofs.Expr.Parts
import PredicateSql.Proofs.Lambda.Gap

/-!
# The parameters of parsed lambdas

* `Parser.Yields`: whatever a computation on tokens returns has a property. One lemma for each way
  to put computations together (`Yields.bind`, ...).
* `Grammar.operand_yields`, `Grammar.suffix_yields` and so on: each function of the grammar returns
  trees over the one parameter in scope, if the expressions nested in it are such trees.
* `Grammar.expression_yields`: so does the whole grammar, by induction on the depth.
  `isOver_of_parseLambda`: the body of a lambda with one parameter is over that parameter.
-/

namespace PredicateSql

/-! ### Computations on tokens -/

namespace Parser

variable {α β : Type} {P : α → Prop} {Q : β → Prop}

/-- Whatever the computation returns satisfies `P`. -/
def Yields (P : α → Prop) (m : Parser α) : Prop :=
  ∀ s a t, m.run s = .ok (a, t) → P a

namespace Yields

theorem pure {a : α} (h : P a) : Yields P (Pure.pure a) := by
  intro s a' t ha
  obtain ⟨rfl, -⟩ := Prod.mk.inj (Except.ok.inj ha)
  exact h

theorem throw {e : ParseError} : Yields P (MonadExcept.throw e) :=
  nofun

theorem bind {m : Parser α} {f : α → Parser β} (hm : Yields P m)
    (hf : ∀ a, P a → Yields Q (f a)) : Yields Q (m >>= f) := by
  intro s b u hb
  obtain ⟨a, t, ha, hb⟩ := run_bind_eq_ok.1 hb
  exact hf a (hm s a t ha) t b u hb

/-- What the first computation returns does not matter. -/
theorem after {m : Parser α} {f : α → Parser β} (hf : ∀ a, Yields Q (f a)) : Yields Q (m >>= f) :=
  bind (P := fun _ => True) (fun _ _ _ _ => trivial) fun a _ => hf a

theorem ite {c : Prop} [Decidable c] {m n : Parser α} (hm : c → Yields P m)
    (hn : ¬ c → Yields P n) : Yields P (if c then m else n) := by
  split
  · exact hm ‹_›
  · exact hn ‹_›

/-- A computation that fails where a condition holds. -/
theorem guard {c : Prop} [Decidable c] {e : ParseError} {f : α → Parser β} {m : Parser β}
    (hm : ¬ c → Yields Q m) :
    Yields Q (if c then (MonadExcept.throw e : Parser α) >>= f else m) :=
  ite (fun _ => nofun) hm

end Yields

end Parser

namespace Grammar

open PredicateSql.Parser (Yields)

variable {g : Grammar} {p : Param} {sub : Nat → Parser Expr}

/-- A tree whose parts are over a parameter, if it is no lambda and no other parameter. -/
theorem isOver_node {e : Expr} (hparam : ∀ name model, e ≠ .param name model)
    (hlambda : ∀ params body, e ≠ .lambda params body)
    (h : ∀ operand ∈ e.operands, operand.IsOver p) : e.IsOver p :=
  Expr.isOver_iff.2 ⟨fun name model he => absurd he (hparam name model), hlambda, h⟩

theorem isOver_ofValue (v : Value) : (Expr.ofValue v).IsOver p :=
  isOver_node nofun nofun nofun

/-! ### Lists -/

/-- The nested expressions are over the parameter. -/
def NestedOver (p : Param) (sub : Nat → Parser Expr) : Prop :=
  ∀ power, (sub power).Yields (Expr.IsOver p)

/-- What holds of all nested expressions holds of all items. -/
theorem items_yields {P : Expr → Prop} (hsub : ∀ power, (sub power).Yields P) {close : TokenKind}
    (count : Nat) : (g.items sub close count).Yields fun items => ∀ e ∈ items, P e := by
  induction count with
  | zero => exact Yields.throw
  | succ count ih =>
    unfold items
    refine (hsub 0).bind fun e he => Yields.after fun closed => ?_
    have hitem : ∀ item ∈ [e], P item := List.forall_mem_singleton.2 he
    refine Yields.ite (fun _ => Yields.pure hitem) fun _ => Yields.after fun t => ?_
    refine Yields.guard fun _ => ih.bind fun rest hrest => Yields.pure ?_
    exact List.forall_mem_cons.2 ⟨he, hrest⟩

theorem list_yields {P : Expr → Prop} (hsub : ∀ power, (sub power).Yields P)
    {opening close : TokenKind} :
    (g.list sub opening close).Yields fun items => ∀ e ∈ items, P e := by
  unfold list
  refine Yields.after fun start => Yields.guard fun _ => Yields.after fun closed => ?_
  refine Yields.ite (fun _ => Yields.pure nofun) fun _ => Yields.after fun rest => ?_
  exact items_yields hsub _

/-! ### Operands -/

theorem number_yields (t : Token) : (number t).Yields (Expr.IsOver p) := by
  unfold number
  split
  · next e he =>
    refine Yields.pure ?_
    unfold number? at he
    extract_lets digits suffix type at he
    split at he
    · obtain rfl := Option.some.inj he
      exact isOver_node nofun nofun nofun
    · split at he
      · split at he
        · obtain rfl := Option.some.inj he
          exact isOver_ofValue _
        · cases he
      · cases he
  · exact Yields.throw

theorem string_yields (t : Token) : (string t).Yields (Expr.IsOver p) := by
  unfold string
  split
  · exact Yields.pure (isOver_ofValue _)
  · exact Yields.throw

theorem new_yields (hsub : NestedOver p sub) : (g.new sub).Yields (Expr.IsOver p) := by
  unfold new
  refine Yields.after fun bracket => Yields.ite (fun _ => ?_) fun _ => ?_
  · refine Yields.after fun _ => (list_yields hsub).bind fun items hitems => Yields.pure ?_
    exact isOver_node nofun nofun hitems
  · refine Yields.after fun name => Yields.after fun type => Yields.after fun hasArgs => ?_
    refine Yields.ite (fun _ => ?_) fun _ => Yields.after fun hasItems => ?_
    · refine (list_yields hsub).bind fun args hargs => Yields.pure ?_
      exact isOver_node nofun nofun hargs
    · refine Yields.ite (fun _ => ?_) fun _ => Yields.throw
      split
      · refine (list_yields hsub).bind fun items hitems => Yields.pure ?_
        exact isOver_node nofun nofun hitems
      · exact Yields.throw

/-- A name is the parameter in scope, or a member of a type. -/
theorem identifier_yields (hg : ∀ q ∈ g.params, q = p) (hsub : NestedOver p sub) (t : Token) :
    (g.identifier sub t).Yields (Expr.IsOver p) := by
  unfold identifier
  extract_lets name
  split
  · next q hq =>
    obtain rfl := hg q (List.mem_of_find?_eq_some hq)
    refine Yields.pure (Expr.isOver_iff.2 ⟨fun name model he => ?_, nofun, nofun⟩)
    obtain ⟨rfl, rfl⟩ := Expr.param.inj he
    rfl
  · refine Yields.guard fun _ => Yields.after fun dot => Yields.guard fun _ => ?_
    refine Yields.after fun member => Yields.after fun hasArgs => ?_
    refine Yields.ite (fun _ => ?_) fun _ => ?_
    · refine (list_yields hsub).bind fun args hargs => Yields.pure ?_
      exact isOver_node nofun nofun hargs
    · exact Yields.pure (isOver_node nofun nofun nofun)

theorem operand_yields (hg : ∀ q ∈ g.params, q = p) (hsub : NestedOver p sub) :
    (g.operand sub).Yields (Expr.IsOver p) := by
  have hunary : ∀ op, Yields (Expr.IsOver p) (do return .unary op (← sub prefixPower)) := by
    refine fun op => (hsub prefixPower).bind fun e he => Yields.pure ?_
    exact isOver_node nofun nofun (List.forall_mem_singleton.2 he)
  unfold operand
  refine Yields.after fun t => ?_
  split
  · refine Yields.after fun isCast => Yields.ite (fun _ => hunary .convert) fun _ => ?_
    exact (hsub 0).bind fun inner hinner => Yields.after fun _ => Yields.pure hinner
  · exact hunary .not
  · exact hunary .negate
  · exact number_yields t
  · exact string_yields t
  · exact string_yields t
  · exact Yields.pure (isOver_ofValue _)
  · exact Yields.pure (isOver_ofValue _)
  · exact Yields.pure (isOver_ofValue _)
  · exact Yields.pure (isOver_node nofun nofun nofun)
  · exact new_yields hsub
  · exact identifier_yields hg hsub t
  · exact Yields.throw

/-! ### Operators -/

theorem suffix_yields (hsub : NestedOver p sub) {owner : Expr} (howner : owner.IsOver p) :
    (g.suffix sub owner).Yields (Expr.IsOver p) := by
  unfold suffix
  refine Yields.after fun t => Yields.ite (fun _ => ?_) fun _ => Yields.after fun member => ?_
  · refine (hsub 0).bind fun index hindex => Yields.after fun _ => Yields.pure ?_
    exact isOver_node nofun nofun (by simp [Expr.operands, howner, hindex])
  · refine Yields.after fun hasArgs => Yields.ite (fun _ => ?_) fun _ => Yields.pure ?_
    · refine (list_yields hsub).bind fun args hargs => Yields.pure ?_
      exact isOver_node nofun nofun (List.forall_mem_cons.2 ⟨howner, hargs⟩)
    · exact isOver_node nofun nofun (List.forall_mem_singleton.2 howner)

theorem between_yields (hsub : NestedOver p sub) {t : Token} {right levels : Nat} {left : Expr}
    (hleft : left.IsOver p) :
    (g.between sub t right left levels).Yields fun result => result.1.IsOver p := by
  unfold between
  refine Yields.ite (fun _ => ?_) fun _ => (hsub right).bind fun operand hoperand => ?_
  · refine (hsub 0).bind fun ifTrue hTrue => Yields.after fun _ => ?_
    refine (hsub right).bind fun ifFalse hFalse => Yields.pure ?_
    exact isOver_node nofun nofun (by simp [Expr.operands, hleft, hTrue, hFalse])
  · split
    · exact Yields.pure (isOver_node nofun nofun (by simp [Expr.operands, hleft, hoperand]))
    · exact Yields.throw

/-- One turn of the loop puts an operator or a suffix around a tree over the parameter. -/
theorem operators_yields (hsub : NestedOver p sub) {power : Nat} (count : Nat) {left : Expr}
    {levels : Nat} (hleft : left.IsOver p) :
    (g.operators sub power count left levels).Yields (Expr.IsOver p) := by
  induction count generalizing left levels with
  | zero => exact Yields.pure hleft
  | succ count ih =>
    unfold operators
    refine Yields.after fun next => ?_
    split
    · split
      · refine Yields.ite (fun _ => Yields.pure hleft) fun _ => ?_
        refine (suffix_yields hsub hleft).bind fun tree htree => Yields.after fun _ => ?_
        exact ih htree
      · refine Yields.ite (fun _ => Yields.pure hleft) fun _ => Yields.after fun _ => ?_
        refine (between_yields hsub hleft).bind fun result hresult => Yields.after fun _ => ?_
        exact ih hresult
      · exact Yields.pure hleft
    · exact Yields.pure hleft

/-- Every expression is over the one parameter in scope. -/
theorem expression_yields (hg : ∀ q ∈ g.params, q = p) (depth : Nat) :
    NestedOver p (g.expression depth) := by
  induction depth with
  | zero => exact fun _ => Yields.throw
  | succ depth ih =>
    intro power
    unfold expression
    refine (operand_yields hg ih).bind fun left hleft => Yields.after fun _ => ?_
    exact Yields.after fun rest => operators_yields ih _ hleft

/-! ### Lambdas -/

/-- The parameters of a lambda are bound to its model. If there is one, its body is over it. -/
theorem lambda_over {model : String} {s t : List Token} {body : Expr}
    (h : (g.lambda model).run s = .ok (.lambda [p] body, t)) : p.model = model ∧ body.IsOver p := by
  rw [lambda] at h
  obtain ⟨names, u, -, h⟩ := Parser.run_bind_eq_ok.1 h
  obtain ⟨_, v, -, h⟩ := Parser.run_bind_eq_ok.1 h
  obtain ⟨tree, w, htree, h⟩ := Parser.run_bind_eq_ok.1 h
  obtain ⟨next, x, -, h⟩ := Parser.run_bind_eq_ok.1 h
  cases next with
  | some => cases h
  | none =>
    obtain ⟨hparams, rfl⟩ := Expr.lambda.inj (Prod.mk.inj (Except.ok.inj h)).1
    obtain ⟨name, -, rfl⟩ := List.map_eq_singleton_iff.1 hparams
    refine ⟨rfl, expression_yields ?_ maxDepth 0 v tree w htree⟩
    rw [hparams]
    exact fun q hq => List.mem_singleton.1 hq

end Grammar

/-- In the body of a parsed lambda with one parameter, that parameter is the only one, and no lambda
stands in it. -/
theorem isOver_of_parseLambda {catalog : Catalog} {model text : String} {p : Param} {body : Expr}
    (h : parseLambda catalog model text = .ok (.lambda [p] body)) :
    p.model = model ∧ body.IsOver p := by
  unfold parseLambda at h
  obtain ⟨t, ht⟩ := Parser.run'_eq_ok.1 h
  exact Grammar.lambda_over ht

end PredicateSql
