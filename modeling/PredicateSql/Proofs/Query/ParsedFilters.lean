import PredicateSql.Proofs.Lambda.Binding
import PredicateSql.Proofs.Query.Navigation
import PredicateSql.Proofs.Query.Searching
import PredicateSql.Query.Compiler

/-!
# Parsed filters

A lambda with one parameter that was parsed against a model asks for that parameter only, and so it
cannot fail for want of one.

* `Expr.IsParsed`: a lambda with one parameter that some text gives.
* `Compiler.build_scoped`: a query whose filter and keys are such lambdas over its model is built,
  or there is an error that is not about scopes. `Context.extract_scoped`: so it is with the search
  for values.
* `Compiler.parsed_closed`: both together, with what is known of the parameters in such a lambda.
-/

namespace PredicateSql

open Walk (Within)

/-- A lambda over a model with one parameter, parsed from a text. -/
def Expr.IsParsed (catalog : Catalog) (model : String) (e : Expr) : Prop :=
  ∃ text p body, parseLambda catalog model text = .ok e ∧ e = .lambda [p] body

/-- A parsed lambda is over its own parameter, which is bound to the model. -/
theorem Expr.IsParsed.isOver {catalog : Catalog} {model : String} {e : Expr}
    (h : e.IsParsed catalog model) :
    ∃ p body, e = .lambda [p] body ∧ p.model = model ∧ body.IsOver p := by
  obtain ⟨text, p, body, hparse, rfl⟩ := h
  exact ⟨p, body, rfl, isOver_of_parseLambda hparse⟩

variable {L : Prop}

theorem Scope.modelFor?_over (p : Param) : (Scope.over p).modelFor? p.name = some p.model := by
  simp [Scope.modelFor?, Scope.over]

namespace Context

variable {c : Context} {p : Param} {body : Expr} {model : String}

/-- Steps along references keep the model that a tree starts from. -/
theorem stepsWithin_model (model : String) : StepsWithin L fun t => t.model = model := by
  intro parent property target
  refine ⟨fun {t node t'} ht h => ?_, fun _ => FailsOnly.pure _⟩
  rcases JoinTree.child_cases (Walk.runs_walkTo.1 h) with ⟨_, _, _, _, _, _, rfl⟩ | ⟨-, -, rfl⟩
  · exact ht
  · exact ht

/-- The body of a lambda over its own parameter. -/
theorem term_over (hmodel : p.model = model) (h : body.IsOver p) :
    Within L (fun t => t.model = model) (c.term (Scope.over p) body) := by
  refine c.term_within body (Scope.over p) (fun hlambda => absurd hlambda h.not_hasLambda) ?_
  intro x hx
  obtain ⟨hbinders, rfl⟩ := h.chains x hx
  refine resolve_within_of_modelFor? (stepsWithin_model model) ?_ fun _ ht => ht
  rw [Expr.MemberChain.scope, hbinders, ← hmodel]
  exact Scope.modelFor?_over x.param

/-- The search for values finds the parameter of a parsed lambda, whatever model they are for. -/
theorem extract_scoped {filter : Expr} {catalog : Catalog} (h : filter.IsParsed catalog model)
    (other : String) (names : List String) : ScopedUnless L (c.extract filter other names) := by
  obtain ⟨p, body, rfl, -, hbody⟩ := h.isOver
  have hsearch : Search.Within L (c.search (Scope.over p) body) := by
    have hlambda := hbody.not_hasLambda
    refine c.search_within body (Scope.over p) (fun h => absurd h hlambda) ?_
    intro x hx
    obtain ⟨hbinders, rfl⟩ := hbody.chains x hx
    have hbound : x.scope.modelFor? x.param.name = some x.param.model := by
      rw [Expr.MemberChain.scope, hbinders]
      exact Scope.modelFor?_over x.param
    exact operandOf_scoped hbound
  unfold extract
  refine (model_scoped other).bind fun _ _ => ?_
  exact FailsOnly.bind (hsearch (.ofNames other names)) fun _ _ => FailsOnly.pure _

end Context

namespace Compiler

variable {c : Compiler} {r : Request}

theorem filter_within {filter : Option Expr}
    (h : ∀ e, filter = some e → e.IsParsed c.context.catalog r.model) :
    Within L (fun t => t.model = r.model) (c.filter filter) := by
  cases filter with
  | none => exact Within.pure _
  | some e =>
    obtain ⟨p, body, rfl, hmodel, hbody⟩ := (h e rfl).isOver
    refine Within.bind (?_ : Within L _ (c.context.condition (Scope.over p) body)) fun _ =>
      Within.pure _
    exact Context.asCondition_within (fun hlambda => absurd hlambda hbody.not_hasLambda)
      (Context.term_over hmodel hbody)

theorem orderKeys_within {keys : List OrderKey}
    (h : ∀ o ∈ keys, o.key.IsParsed c.context.catalog r.model) :
    Within L (fun t => t.model = r.model) (c.orderKeys keys) := by
  induction keys with
  | nil => exact Within.pure _
  | cons o rest ih =>
    obtain ⟨hfirst, hrest⟩ := List.forall_mem_cons.1 h
    obtain ⟨p, body, hkey, hmodel, hbody⟩ := hfirst.isOver
    have hterm : c.context.keyTerm (.lambda [p] body) = c.context.term (Scope.over p) body := rfl
    unfold orderKeys
    rw [hkey, hterm]
    exact (Context.term_over hmodel hbody).bind fun _ => (ih hrest).bind fun _ => Within.pure _

theorem projection_within {root : Model} :
    Within L (fun t => t.model = r.model) (c.projection root r) := by
  unfold projection
  have hcolumns := (Context.project_within (L := L) (c := c.context)
    (Context.stepsWithin_model r.model) (r.graph.getD .all) 0 root "").bind fun columns =>
      Within.pure (Sql.Projection.columns columns)
  cases r.select with
  | count | any => exact Within.pure _
  | many | first | single => exact hcolumns

/-- A request with parsed filters and keys is built, or fails with an error that is not about
scopes. -/
theorem build_scoped (hfilter : ∀ e, r.filter = some e → e.IsParsed c.context.catalog r.model)
    (horder : ∀ o ∈ r.order, o.key.IsParsed c.context.catalog r.model) :
    ScopedUnless L (c.build r) := by
  have hkeys : ∀ o ∈ (if r.select.isOrdered then r.order else []),
      o.key.IsParsed c.context.catalog r.model := by
    intro o ho
    split at ho
    · exact horder o ho
    · cases ho
  unfold build
  refine (Context.model_scoped r.model).bind fun root hroot => ?_
  have hmodel : (JoinTree.ofModel root c.aliasStem).model = r.model :=
    Catalog.name_of_find? (Context.model_eq_ok.1 hroot)
  refine Walk.Within.fails (I := fun t => t.model = r.model) ?_ hmodel
  unfold assemble
  refine (filter_within hfilter).bind fun filter => (orderKeys_within hkeys).bind fun order => ?_
  refine projection_within.bind fun projection => Within.get_bind fun t _ => ?_
  exact Within.pure _

/-- A lambda with one parameter that is parsed against a model names no parameter but its own, which
is of that model, and has no lambda in it. So queries over the model with such lambdas as filter or
as keys never fail for want of a parameter or at a lambda, and neither does the search for the
values that such a lambda asks for, of whatever model. -/
theorem parsed_closed {model text : String} {p : Param} {body : Expr}
    (h : parseLambda c.context.catalog model text = .ok (.lambda [p] body)) :
    p.model = model ∧
    (∀ name declared, (Expr.param name declared).IsPartOf body → name = p.name ∧ declared = model) ∧
    (∀ params inner, ¬ (Expr.lambda params inner).IsPartOf body) ∧
    (∀ r : Request, r.model = model →
      (∀ e, r.filter = some e → e.IsParsed c.context.catalog model) →
      (∀ o ∈ r.order, o.key.IsParsed c.context.catalog model) →
      ∀ err, c.build r = .error err → err.isScopeError = false) ∧
    ∀ other names err, c.context.extract (.lambda [p] body) other names = .error err →
      err.isScopeError = false := by
  obtain ⟨hmodel, hbody⟩ := isOver_of_parseLambda h
  refine ⟨hmodel, fun name declared hpart => ?_, hbody.lambda, ?_, ?_⟩
  · rw [← hmodel, ← hbody.param name declared hpart]
    exact ⟨rfl, rfl⟩
  · rintro r rfl hfilter horder err herr
    exact Bool.eq_false_iff.2 (build_scoped hfilter horder err herr)
  · intro other names err herr
    have hparsed : (Expr.lambda [p] body).IsParsed c.context.catalog model :=
      ⟨text, p, body, h, rfl⟩
    exact Bool.eq_false_iff.2 (Context.extract_scoped (L := False) hparsed other names err herr)

/-- A filter over a property that people do not have. Neither the query nor the search is about
scopes when it fails, also where the filter is a key of the query. -/
theorem parsed_closed_height :
    let model := "Person"
    ∃ filter err, parseLambda sample.context.catalog model "p => p.Height > 30" = .ok filter ∧
      sample.build { model, filter := some filter, order := [⟨filter, true⟩] } = .error err ∧
      sample.context.extract filter model ["Age"] = .error err ∧ err.isScopeError = false := by
  intro model
  let filter : Expr := .lambda [⟨"p", model⟩]
    (.binary .greater (.memberOf (.param "p" model) "Height") (.ofValue (.int 30)))
  have hparse :
    parseLambda sample.context.catalog model "p => p.Height > 30" = .ok filter := rfl
  have hparsed : filter.IsParsed sample.context.catalog model := ⟨_, _, _, hparse, rfl⟩
  obtain ⟨-, -, -, hbuild, -⟩ := parsed_closed hparse
  obtain ⟨err, hquery, hsearch⟩ : ∃ err,
      sample.build { model, filter := some filter, order := [⟨filter, true⟩] } = .error err ∧
      sample.context.extract filter model ["Age"] = .error err := ⟨_, rfl, rfl⟩
  refine ⟨filter, err, hparse, hquery, hsearch, hbuild _ rfl ?_ ?_ err hquery⟩
  · rintro e ⟨⟩
    exact hparsed
  · rintro o ho
    obtain rfl := List.mem_singleton.1 ho
    exact hparsed

end Compiler

end PredicateSql
