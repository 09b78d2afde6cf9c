import PredicateSql.Proofs.Query.Replacement
import PredicateSql.Query.Extraction

/-!
# Casts

A cast has no meaning of its own, wherever it stands: without any casts, a request gives the same
query, a filter the same values, and a closed expression the same value, or the same error.

* `Expr.withoutCasts`: an expression with all casts deleted.
* `Context.replaces_withoutCasts`: it stands for the expression, whatever is asked of it.
* `Context.search_withoutCasts`: a search finds the same in both.
* `Compiler.casts_transparent`: nothing that is done with a request depends on its casts.
-/

namespace PredicateSql

namespace Expr

mutual

/-- The expression with every cast replaced by its operand. -/
def withoutCasts : Expr → Expr
  | .unary .convert operand => operand.withoutCasts
  | .unary op operand => .unary op operand.withoutCasts
  | .binary op left right => .binary op left.withoutCasts right.withoutCasts
  | .member owner type name => .member owner.withoutCasts type name
  | .call target method args => .call target.withoutCasts method (withoutCastsAll args)
  | .staticCall method args => .staticCall method (withoutCastsAll args)
  | .new type args => .new type (withoutCastsAll args)
  | .array type items => .array type (withoutCastsAll items)
  | .conditional test ifTrue ifFalse =>
    .conditional test.withoutCasts ifTrue.withoutCasts ifFalse.withoutCasts
  | .lambda params body => .lambda params body.withoutCasts
  | .staticMember type name => .staticMember type name
  | .constant type value => .constant type value
  | .param name model => .param name model

/-- The expressions without their casts. -/
def withoutCastsAll : List Expr → List Expr
  | [] => []
  | e :: rest => e.withoutCasts :: withoutCastsAll rest

end

mutual

/-- A cast occurs in the expression. -/
def hasCast : Expr → Bool
  | .unary op operand => op = .convert || operand.hasCast
  | .binary _ left right => left.hasCast || right.hasCast
  | .member owner _ _ => owner.hasCast
  | .call target _ args => target.hasCast || haveCast args
  | .staticCall _ args | .new _ args | .array _ args => haveCast args
  | .conditional test ifTrue ifFalse => test.hasCast || ifTrue.hasCast || ifFalse.hasCast
  | .lambda _ body => body.hasCast
  | .staticMember .. | .constant .. | .param .. => false

/-- A cast occurs in one of the expressions. -/
def haveCast : List Expr → Bool
  | [] => false
  | e :: rest => e.hasCast || haveCast rest

end

mutual

/-- No casts are left. -/
theorem hasCast_withoutCasts : ∀ e : Expr, e.withoutCasts.hasCast = false
  | .unary .convert operand => hasCast_withoutCasts operand
  | .unary .not operand => hasCast_withoutCasts operand
  | .unary .negate operand => hasCast_withoutCasts operand
  | .binary _ left right => by
    rw [withoutCasts, hasCast, hasCast_withoutCasts left, hasCast_withoutCasts right]
    rfl
  | .member owner _ _ => hasCast_withoutCasts owner
  | .call target _ args => by
    rw [withoutCasts, hasCast, hasCast_withoutCasts target, haveCast_withoutCasts args]
    rfl
  | .staticCall _ args | .new _ args | .array _ args => haveCast_withoutCasts args
  | .conditional test ifTrue ifFalse => by
    rw [withoutCasts, hasCast, hasCast_withoutCasts test, hasCast_withoutCasts ifTrue,
      hasCast_withoutCasts ifFalse]
    rfl
  | .lambda _ body => hasCast_withoutCasts body
  | .staticMember .. | .constant .. | .param .. => rfl

theorem haveCast_withoutCasts : ∀ args : List Expr, haveCast (withoutCastsAll args) = false
  | [] => rfl
  | e :: rest => by
    rw [withoutCastsAll, haveCast, hasCast_withoutCasts e, haveCast_withoutCasts rest]
    rfl

end

end Expr

/-- The request with the casts of its filter and of the keys of its order deleted. -/
def Request.withoutCasts (r : Request) : Request :=
  { r with
    filter := r.filter.map Expr.withoutCasts
    order := r.order.map fun o => { o with key := o.key.withoutCasts } }

namespace Context

variable {c : Context}

/-! ### Terms -/

mutual

/-- Without its casts, an expression answers alike in every place. -/
theorem replaces_withoutCasts : ∀ (e : Expr) (binders : List (String × String)) (asked : Asked),
    c.Replaces binders asked e e.withoutCasts
  | .unary .convert operand, binders, asked =>
    Replaces.convert_self.trans (replaces_withoutCasts operand binders asked)
  | .unary .not operand, binders, _ => .not (replaces_withoutCasts operand binders _)
  | .unary .negate operand, binders, _ => .negate (replaces_withoutCasts operand binders _)
  | .binary op left right, binders, asked => by
    -- Nothing that an operator may ask of an operand distinguishes it from itself without casts.
    have hleft := replaces_withoutCasts left binders { walked := true, type := .whole, null := true }
    have hright :=
      replaces_withoutCasts right binders { walked := true, type := .whole, null := true }
    refine .binary hleft hright (fun _ _ => ⟨rfl, rfl⟩) (fun _ _ s hs => ?_)
      (fun _ _ => ⟨hleft.null rfl, hright.null rfl⟩) fun _ _ => hleft.null rfl
    rw [show c.staticType? s left = c.staticType? s left.withoutCasts from hleft.type s hs,
      show c.staticType? s right = c.staticType? s right.withoutCasts from hright.type s hs]
  | .member owner _ _, binders, _ => .member (replaces_withoutCasts owner binders _)
  | .call target _ args, binders, _ =>
    .call (replaces_withoutCasts target binders _) (arguments_withoutCasts args binders _)
  | .staticCall _ args, binders, _ => .staticCall (arguments_withoutCasts args binders _)
  | .new _ args, binders, _ => .new (arguments_withoutCasts args binders _)
  | .array _ items, binders, _ => .array (arguments_withoutCasts items binders _)
  | .conditional test ifTrue ifFalse, binders, _ =>
    .conditional (replaces_withoutCasts test binders _) (replaces_withoutCasts ifTrue binders _)
      (replaces_withoutCasts ifFalse binders _)
  | .lambda _ body, binders, _ => .lambda fun p _ => replaces_withoutCasts body _ _
  | .staticMember .., _, _ | .constant .., _, _ | .param .., _, _ => .refl

theorem arguments_withoutCasts : ∀ (args : List Expr) (binders : List (String × String))
    (asked : Asked), Replaces.Arguments c binders asked args (Expr.withoutCastsAll args)
  | [], _, _ => .nil
  | e :: rest, binders, asked =>
    .cons (replaces_withoutCasts e binders _) (arguments_withoutCasts rest binders asked)

end

theorem isClosed_withoutCasts (e : Expr) : e.withoutCasts.isClosed = e.isClosed :=
  (replaces_withoutCasts (c := default) e [] {}).closed.symm

theorem evaluate_withoutCasts (e : Expr) :
    c.evaluator.evaluate e.withoutCasts = c.evaluator.evaluate e :=
  (replaces_withoutCasts e [] {}).value.symm

/-! ### Searches -/

theorem closedOperand_withoutCasts {s : Scope} {e : Expr} :
    c.closedOperand s e.withoutCasts = c.closedOperand s e := by
  rw [closedOperand, closedOperand, boundary_eq, boundary_eq, evaluate_withoutCasts]

theorem searchNode_withoutCasts {s : Scope} {e : Expr} {walk walk' : Search Unit}
    (hw : walk = walk') : c.searchNode s e.withoutCasts walk = c.searchNode s e walk' := by
  rw [searchNode, searchNode, isClosed_withoutCasts, closedOperand_withoutCasts, hw]

/-- A search goes through the casts of an expression, and finds what it finds without them. -/
theorem search_withoutCasts : ∀ (e : Expr) (s : Scope), c.search s e.withoutCasts = c.search s e
  | .unary .convert operand, s => search_withoutCasts operand s
  | .member owner _ name, s => search_withoutCasts owner (s.withMember name)
  | .staticMember .., _ | .constant .., _ | .param .., _ => rfl
  | .lambda params body, s => by
    rw [Expr.withoutCasts, search, search]
    simp only [search_withoutCasts body]
  | .unary .not operand, s =>
    searchNode_withoutCasts (e := .unary .not operand)
      (by rw [search_withoutCasts operand s.isolated.inverted])
  | .unary .negate operand, s =>
    searchNode_withoutCasts (e := .unary .negate operand)
      (by rw [search_withoutCasts operand s.isolated.neutral])
  | .binary op left right, s => by
    have hleft := fun s => search_withoutCasts left s
    have hright := fun s => search_withoutCasts right s
    cases op with
    | index => exact searchNode_withoutCasts (e := .binary .index left right) rfl
    | _ => exact searchNode_withoutCasts (e := .binary _ left right) (by simp only [hleft, hright])
  | .conditional test ifTrue ifFalse, s =>
    searchNode_withoutCasts (e := .conditional test ifTrue ifFalse)
      (by simp only [search_withoutCasts test, search_withoutCasts ifTrue,
        search_withoutCasts ifFalse])
  | .staticCall method [], s => searchNode_withoutCasts (e := .staticCall method []) rfl
  | .staticCall method [a], s => searchNode_withoutCasts (e := .staticCall method [a]) rfl
  | .staticCall method [collection, item], s =>
    searchNode_withoutCasts (e := .staticCall method [collection, item])
      (by rw [search_withoutCasts collection, search_withoutCasts item])
  | .staticCall method (a :: b :: d :: rest), s =>
    searchNode_withoutCasts (e := .staticCall method (a :: b :: d :: rest)) rfl
  | .call target method [], s => searchNode_withoutCasts (e := .call target method []) rfl
  | .call target method [item], s =>
    searchNode_withoutCasts (e := .call target method [item])
      (by rw [search_withoutCasts target, search_withoutCasts item])
  | .call target method (a :: b :: rest), s =>
    searchNode_withoutCasts (e := .call target method (a :: b :: rest)) rfl
  | .new type args, s => searchNode_withoutCasts (e := .new type args) rfl
  | .array type items, s => searchNode_withoutCasts (e := .array type items) rfl

theorem extract_withoutCasts (e : Expr) (model : String) (names : List String) :
    c.extract e.withoutCasts model names = c.extract e model names := by
  rw [extract, extract, search_withoutCasts]

end Context

/-! ### Requests -/

namespace Compiler

variable {c : Compiler}

theorem orderKeys_withoutCasts (order : List OrderKey) :
    c.orderKeys (order.map fun o => { o with key := o.key.withoutCasts }) = c.orderKeys order := by
  induction order with
  | nil => rfl
  | cons o rest ih =>
    rw [List.map_cons, orderKeys, orderKeys, ih,
      ← (c.context.replaces_withoutCasts o.key [] { walked := true }).keyTerm]

theorem build_withoutCasts (r : Request) : c.build r.withoutCasts = c.build r := by
  refine build_congr ?_ (orderKeys_withoutCasts r.order)
  cases r.filter with
  | none => rfl
  | some e => exact (filter_congr (c.context.replaces_withoutCasts e [] { walked := true })).symm

/-- Casts carry no meaning: without them, a request gives the same query, a filter the same values,
and an expression the same value, or all of them the same errors. -/
theorem casts_transparent (c : Compiler) (r : Request) (e : Expr) (model : String)
    (names : List String) :
    e.withoutCasts.hasCast = false ∧
      c.build r.withoutCasts = c.build r ∧
      c.context.extract e.withoutCasts model names = c.context.extract e model names ∧
      c.context.evaluator.evaluate e.withoutCasts = c.context.evaluator.evaluate e :=
  ⟨e.hasCast_withoutCasts, build_withoutCasts r, Context.extract_withoutCasts e model names,
    Context.evaluate_withoutCasts e⟩

end Compiler

end PredicateSql
