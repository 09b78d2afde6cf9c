import PredicateSql.Proofs.Query.Analysis
import PredicateSql.Proofs.Query.Runs
import PredicateSql.Proofs.Query.Stacks

/-!
# Terms by a walk over stacks

* `Context.translate`: the term of an expression, by a walk over stacks. The operators above a node
  are kept as well, though no term depends on them.
* `Context.translate_restores`: from whatever stacks the walk starts and whatever comes of it, it
  leaves the same stacks, and a tree that starts with the one it was given. `Walk.Grows` says the
  latter of walks without stacks.
* `Context.translate_translates`: the walk finds and leaves what `Context.term` does, as long as
  there is room in the counter of negations.
-/

namespace PredicateSql

open Sql (Term)
open Stacked (entering frame onStore fail)

namespace Context

variable {V : Type} [ClosedEvaluator V]

/-! ### The walk -/

/-- A closed node as a literal. -/
def translateClosed (c : Context V) (e : Expr) : Stacked JoinTree Term := do
  let value ← entering (.operator .evaluate) (liftM (ClosedEvaluator.evaluate c.evaluator e))
  let value ← drill value (← frame).members
  literalOf value

/-- A term in the place of a condition, under a written negation if it does not account for the
negations around it. -/
def translateCondition (e : Expr) (walk : Stacked JoinTree Term) : Stacked JoinTree Term := do
  let term ← walk
  if (← frame).isInverted then
    if ← e.handlesNegation then return term else return .not term
  else return term

/-- The members that wait for the value of a node, applied to its term. -/
def translateNode (c : Context V) (e : Expr) (walk : Stacked JoinTree Term) :
    Stacked JoinTree Term := do
  let k ← frame
  match k.members with
  | [] => walk
  | first :: _ =>
    if ← e.isClosed then c.translateClosed e
    else
      match c.staticType? k.scope e with
      | none => fail (.unsupportedMember e.kind first)
      | some type => do scalarMembers (← entering .isolated walk) type k.members

/-- A closed node as a literal, any other by `walk`. -/
def translateOpen (c : Context V) (e : Expr) (walk : Stacked JoinTree Term) :
    Stacked JoinTree Term := do
  if ← e.isClosed then c.translateClosed e else walk

/-- A logical operation, whose operands stand under the same negations. -/
def translateLogical (operator : Sql.Operator) (left right : Expr)
    (walkLeft walkRight : Stacked JoinTree Term) : Stacked JoinTree Term := do
  let operator := operator.invertIf (← frame).isInverted
  entering (.operator operator) do
    let left ← translateCondition left walkLeft
    let right ← translateCondition right walkRight
    return .operation left operator right

/-- A comparison. -/
def translateComparison (c : Context V) (operator : Sql.Operator) (left right : Expr)
    (walkLeft walkRight : Stacked JoinTree Term) : Stacked JoinTree Term := do
  let operator := operator.invertIf (← frame).isInverted
  match ← c.nullTest? operator left right with
  | some (leftIsNull, test) =>
    entering (.operator test) <| entering .neutral do
      return .isNull (← if leftIsNull then walkRight else walkLeft) test
  | none =>
    entering (.operator operator) <| entering .neutral do
      let left ← walkLeft
      let right ← walkRight
      return .operation left operator right

/-- An arithmetic operation. -/
def translateArithmetic (c : Context V) (op : BinaryOp) (operator : Sql.Operator)
    (left right : Expr) (walkLeft walkRight : Stacked JoinTree Term) :
    Stacked JoinTree Term := do
  let s := (← frame).scope
  entering (.operator operator) <| entering .neutral do
    let leftTerm ← walkLeft
    let rightTerm ← walkRight
    if op = .add ∧
        (c.staticType? s left = some .string ∨ c.staticType? s right = some .string) then
      return .concat (leftTerm.concatParts ++ rightTerm.concatParts)
    else return .operation leftTerm operator rightTerm

/-- The membership of an item in a closed collection. -/
def translateIn (c : Context V) (collection : Expr) (walkItem : Stacked JoinTree Term) :
    Stacked JoinTree Term := do
  if ← collection.isClosed then
    let negated := (← frame).isInverted
    let values := (← ClosedEvaluator.evaluate c.evaluator collection).toList
    if values.isEmpty then
      return .operation (.literal (.int 1)) .equals (.literal (.int (if negated then 1 else 0)))
    let item ← entering .neutral walkItem
    let list ← literalsOf (values.filter fun v => !v.isNull)
    if !values.any Value.isNull then return .inList item list negated
    let isNull := Term.isNull item (.invertIf negated .equalsNull)
    if list.isEmpty then return isNull
    return .operation (.inList item list negated) (.invertIf negated .or) isNull
  else fail (.notEvaluatable "Contains collection")

/-- A search for a text within another. -/
def translateLike (c : Context V) (method : Method) (anchor : Text.Anchor) (pattern : Expr)
    (walkItem walkPattern : Stacked JoinTree Term) : Stacked JoinTree Term := do
  let negated := (← frame).isInverted
  let item ← entering .neutral walkItem
  if ← pattern.isClosed then
    match ← ClosedEvaluator.evaluate c.evaluator pattern with
    | .string text =>
      return .like item (.text (.ofList (anchor.pattern text.toList))) negated true
    | other => fail (.evaluation (.patternExpected method.name other))
  else
    let pattern ← entering .neutral walkPattern
    return .like item (.concat (anchor.surround [.text "%"] [pattern])) negated false

/-- A method with one argument. -/
def translateWithArg (c : Context V) (method : Method) (target arg : Expr)
    (walkTarget walkArg : Stacked JoinTree Term) : Stacked JoinTree Term :=
  if method.known? = some .contains ∧ method.declaringType.isSequence then
    c.translateIn target walkArg
  else
    match method.declaringType, method.anchor? with
    | .string, some anchor => c.translateLike method anchor arg walkTarget walkArg
    | _, _ => fail (.unsupportedMethod method)

/-- A method without arguments. -/
def translateWithoutArgs (method : Method) (walkTarget : Stacked JoinTree Term) :
    Stacked JoinTree Term :=
  match method.declaringType, method.function? with
  | .string, some function => do return .call function [← entering .neutral walkTarget]
  | _, _ => fail (.unsupportedMethod method)

/-- The term of an expression. -/
def translate (c : Context V) : Expr → Stacked JoinTree Term
  | .member owner _ name => entering (.member name) (c.translate owner)
  | .staticMember type name => c.translateClosed (.staticMember type name)
  | .constant type value => c.translateClosed (.constant type value)
  | .param name model => do
    let s := (← frame).scope
    onStore (c.resolve s name model).run
  | .unary .convert operand => c.translate operand
  | .binary op left right =>
    let e := Expr.binary op left right
    c.translateNode e <|
      match Sql.Operator.ofBinary? op with
      | none => c.translateOpen e (fail (.unsupportedOperator e.kind "ArrayIndex"))
      | some operator =>
        if op.isLogical then
          translateLogical operator left right (c.translate left) (c.translate right)
        else if op.isComparison then
          c.translateComparison operator left right (c.translate left) (c.translate right)
        else c.translateArithmetic op operator left right (c.translate left) (c.translate right)
  | .unary .not operand =>
    c.translateNode (.unary .not operand) <|
      entering .inverted (translateCondition operand (c.translate operand))
  | .unary .negate operand =>
    c.translateNode (.unary .negate operand) <|
      entering (.operator .negative) <| entering .neutral do
        return .negative (← c.translate operand)
  | .staticCall method [collection, item] =>
    let e := Expr.staticCall method [collection, item]
    c.translateNode e <| c.translateOpen e <| entering (.operator .call) <|
      if method.known? = some .contains ∧ method.declaringType.isSequence then
        c.translateIn collection (c.translate item)
      else fail (.unsupportedMethod method)
  | .staticCall method args =>
    let e := Expr.staticCall method args
    c.translateNode e <| c.translateOpen e <| entering (.operator .call) <|
      fail (.unsupportedMethod method)
  | .call target method [] =>
    let e := Expr.call target method []
    c.translateNode e <| c.translateOpen e <| entering (.operator .call) <|
      translateWithoutArgs method (c.translate target)
  | .call target method [arg] =>
    let e := Expr.call target method [arg]
    c.translateNode e <| c.translateOpen e <| entering (.operator .call) <|
      c.translateWithArg method target arg (c.translate target) (c.translate arg)
  | .call target method args =>
    let e := Expr.call target method args
    c.translateNode e <| c.translateOpen e <| entering (.operator .call) <|
      fail (.unsupportedMethod method)
  | .new type args =>
    let e := Expr.new type args
    c.translateNode e do
      if ← e.isClosed then entering (.operator .new) (c.translateClosed e)
      else fail (.notEvaluatable e.kind)
  | .array type items =>
    let e := Expr.array type items
    c.translateNode e do
      if ← e.isClosed then entering (.operator .new) (c.translateClosed e)
      else fail (.notEvaluatable e.kind)
  | .conditional test ifTrue ifFalse =>
    c.translateNode (.conditional test ifTrue ifFalse) <|
      entering (.operator .conditional) do
        let test ← entering .neutral (translateCondition test (c.translate test))
        let ifTrue ← translateCondition ifTrue (c.translate ifTrue)
        let ifFalse ← translateCondition ifFalse (c.translate ifFalse)
        return .conditional test ifTrue ifFalse
  | .lambda params body =>
    c.translateNode (.lambda params body) <|
      Stacked.withLambda params (translateCondition body (c.translate body))

end Context

/-! ### What the walk leaves -/

/-- A tree is the first part of another one: the same root and the same branches in the same order,
and perhaps more after them. -/
def JoinTree.IsPrefix (t t' : JoinTree) : Prop :=
  ∃ more, t' = { t with branches := t.branches ++ more }

theorem JoinTree.IsPrefix.rfl {t : JoinTree} : t.IsPrefix t :=
  ⟨[], by rw [List.append_nil]⟩

theorem JoinTree.IsPrefix.trans {t t' t'' : JoinTree} (h : t.IsPrefix t')
    (h' : t'.IsPrefix t'') : t.IsPrefix t'' := by
  obtain ⟨more, rfl⟩ := h
  obtain ⟨more', rfl⟩ := h'
  exact ⟨more ++ more', by rw [List.append_assoc]⟩

instance : IsPreorder JoinTree JoinTree.IsPrefix where
  refl _ := .rfl
  trans _ _ _ := .trans

namespace Walk

variable {α β : Type}

/-- Wherever the walk starts, it extends the tree, and be it before a failure. -/
def Grows (w : Walk α) : Prop :=
  ∀ t : JoinTree, t.IsPrefix (w.run t : Except QueryError α × JoinTree).2

theorem Grows.pure (a : α) : Grows (Pure.pure a) :=
  fun _ => .rfl

theorem Grows.throw (err : QueryError) : Grows (MonadExcept.throw err : Walk α) :=
  fun _ => .rfl

theorem Grows.lift (x : Except QueryError α) : Grows (liftM x : Walk α) :=
  fun _ => .rfl

theorem Grows.get : Grows (MonadState.get : Walk JoinTree) :=
  fun _ => .rfl

theorem Grows.walkTo (parent : Nat) (property : Property) (target : Model) :
    Grows (PredicateSql.walkTo parent property target) := by
  intro t
  show t.IsPrefix (t.child parent property target).2
  rcases hchild : t.child parent property target with ⟨node, t'⟩
  rcases JoinTree.child_cases hchild with ⟨_, _, -, -, -, -, rfl⟩ | ⟨-, -, rfl⟩
  · exact .rfl
  · exact ⟨_, rfl⟩

theorem Grows.bind {w : Walk α} {f : α → Walk β} (hw : Grows w) (hf : ∀ a, Grows (f a)) :
    Grows (w >>= f) := by
  intro t
  have h := hw t
  rw [run_bind]
  rcases hrun : (w.run t : Except QueryError α × JoinTree) with ⟨err | a, t'⟩ <;> rw [hrun] at h
  · exact h
  · exact h.trans (hf a t')

theorem Grows.ite {p : Prop} [Decidable p] {w v : Walk α} (hw : Grows w) (hv : Grows v) :
    Grows (if p then w else v) := by
  split
  · exact hw
  · exact hv

end Walk

namespace Context

open Stacked (Restores)
open Walk (Grows)

variable {V : Type} {c : Context V} {s : Scope} {e left right : Expr}
  {walk walkLeft walkRight : Stacked JoinTree Term}

theorem column_grows {node : Nat} {p : Property} {members : List String} :
    Grows (column node p members) :=
  Grows.bind Grows.get fun _ => Grows.lift _

theorem follow_grows {node : Nat} {p : Property} {members : List String} :
    Grows (c.follow node p members) := by
  induction members generalizing node p with
  | nil => exact column_grows
  | cons member rest ih =>
    unfold follow
    split
    · exact column_grows
    · refine Grows.ite column_grows (Grows.ite ih ?_)
      refine Grows.bind (Grows.lift _) fun _ => Grows.bind (Grows.walkTo _ _ _) fun _ => ?_
      exact Grows.bind (Grows.lift _) fun _ => ih

theorem resolve_grows_always {name declared : String} : Grows (c.resolve s name declared) := by
  unfold resolve
  split
  · refine Grows.bind Grows.get fun _ => Grows.ite (Grows.bind (Grows.throw _) fun _ => ?_) ?_
    all_goals
      refine Grows.bind (Grows.lift _) fun _ => ?_
      split
      · exact Grows.throw _
      · exact Grows.bind (Grows.lift _) fun _ => follow_grows
  · exact Grows.throw _

theorem translateArithmetic_restores {op : BinaryOp} {operator : Sql.Operator}
    (hleft : Restores JoinTree.IsPrefix walkLeft) (hright : Restores JoinTree.IsPrefix walkRight) :
    Restores JoinTree.IsPrefix
      (c.translateArithmetic op operator left right walkLeft walkRight) := by
  unfold translateArithmetic
  refine Restores.bind Restores.frame fun _ => Restores.entering (Restores.entering ?_)
  exact Restores.bind hleft fun _ => Restores.bind hright fun _ =>
    Restores.ite (Restores.pure _) (Restores.pure _)

variable [ClosedEvaluator V]

theorem translateClosed_restores : Restores JoinTree.IsPrefix (c.translateClosed e) := by
  unfold translateClosed
  refine Restores.bind (Restores.entering (Restores.lift _)) fun _ => ?_
  exact Restores.bind Restores.frame fun _ => Restores.bind (Restores.lift _) fun _ =>
    Restores.lift _

theorem translateCondition_restores (h : Restores JoinTree.IsPrefix walk) :
    Restores JoinTree.IsPrefix (translateCondition e walk) := by
  unfold translateCondition
  refine Restores.bind h fun _ => Restores.bind Restores.frame fun _ => Restores.ite ?_ ?_
  · exact Restores.bind (Restores.lift _) fun _ =>
      Restores.ite (Restores.pure _) (Restores.pure _)
  · exact Restores.pure _

theorem translateNode_restores (h : Restores JoinTree.IsPrefix walk) :
    Restores JoinTree.IsPrefix (c.translateNode e walk) := by
  unfold translateNode
  refine Restores.bind Restores.frame fun k => ?_
  split
  · exact h
  · refine Restores.bind (Restores.lift _) fun _ => Restores.ite translateClosed_restores ?_
    split
    · exact Restores.fail _
    · exact Restores.bind (Restores.entering h) fun _ => Restores.lift _

theorem translateOpen_restores (h : Restores JoinTree.IsPrefix walk) :
    Restores JoinTree.IsPrefix (c.translateOpen e walk) :=
  Restores.bind (Restores.lift _) fun _ => Restores.ite translateClosed_restores h

theorem translateLogical_restores {operator : Sql.Operator}
    (hleft : Restores JoinTree.IsPrefix walkLeft) (hright : Restores JoinTree.IsPrefix walkRight) :
    Restores JoinTree.IsPrefix (translateLogical operator left right walkLeft walkRight) := by
  unfold translateLogical
  refine Restores.bind Restores.frame fun _ => Restores.entering ?_
  exact Restores.bind (translateCondition_restores hleft) fun _ =>
    Restores.bind (translateCondition_restores hright) fun _ => Restores.pure _

theorem translateComparison_restores {operator : Sql.Operator}
    (hleft : Restores JoinTree.IsPrefix walkLeft) (hright : Restores JoinTree.IsPrefix walkRight) :
    Restores JoinTree.IsPrefix (c.translateComparison operator left right walkLeft walkRight) := by
  unfold translateComparison
  refine Restores.bind Restores.frame fun _ => Restores.bind (Restores.lift _) fun test => ?_
  split
  · refine Restores.entering (Restores.entering (Restores.ite ?_ ?_))
    · exact Restores.bind hright fun _ => Restores.pure _
    · exact Restores.bind hleft fun _ => Restores.pure _
  · exact Restores.entering (Restores.entering
      (Restores.bind hleft fun _ => Restores.bind hright fun _ => Restores.pure _))

theorem translateIn_restores {collection : Expr} (h : Restores JoinTree.IsPrefix walk) :
    Restores JoinTree.IsPrefix (c.translateIn collection walk) := by
  unfold translateIn
  refine Restores.bind (Restores.lift _) fun _ => Restores.ite ?_ (Restores.fail _)
  refine Restores.bind Restores.frame fun _ => Restores.bind (Restores.lift _) fun _ => ?_
  refine Restores.ite (Restores.pure _) (Restores.bind (Restores.entering h) fun _ => ?_)
  refine Restores.bind (Restores.lift _) fun _ => Restores.ite (Restores.pure _) ?_
  exact Restores.ite (Restores.pure _) (Restores.pure _)

theorem translateLike_restores {method : Method} {anchor : Text.Anchor} {pattern : Expr}
    (hleft : Restores JoinTree.IsPrefix walkLeft) (hright : Restores JoinTree.IsPrefix walkRight) :
    Restores JoinTree.IsPrefix (c.translateLike method anchor pattern walkLeft walkRight) := by
  unfold translateLike
  refine Restores.bind Restores.frame fun _ => Restores.bind (Restores.entering hleft) fun _ => ?_
  refine Restores.bind (Restores.lift _) fun _ => Restores.ite ?_ ?_
  · refine Restores.bind (Restores.lift _) fun _ => ?_
    split
    · exact Restores.pure _
    · exact Restores.fail _
  · exact Restores.bind (Restores.entering hright) fun _ => Restores.pure _

theorem translateWithArg_restores {method : Method} {target arg : Expr}
    (hleft : Restores JoinTree.IsPrefix walkLeft) (hright : Restores JoinTree.IsPrefix walkRight) :
    Restores JoinTree.IsPrefix (c.translateWithArg method target arg walkLeft walkRight) := by
  unfold translateWithArg
  refine Restores.ite (translateIn_restores hright) ?_
  split
  · exact translateLike_restores hleft hright
  · exact Restores.fail _

theorem translateWithoutArgs_restores {method : Method} (h : Restores JoinTree.IsPrefix walk) :
    Restores JoinTree.IsPrefix (translateWithoutArgs method walk) := by
  unfold translateWithoutArgs
  split
  · exact Restores.bind (Restores.entering h) fun _ => Restores.pure _
  · exact Restores.fail _

/-- An object or an array, which is always evaluated. -/
theorem evaluated_restores {err : QueryError} : Restores JoinTree.IsPrefix (do
    if ← e.isClosed then entering (.operator .new) (c.translateClosed e) else fail err :
      Stacked JoinTree Term) :=
  Restores.bind (Restores.lift _) fun _ =>
    Restores.ite (Restores.entering translateClosed_restores) (Restores.fail _)

/-- The walk of an expression restores its stacks and extends the tree. The induction is on the
expression, and every part of a walk restores what is around it. -/
theorem translate_restores : ∀ e : Expr, Restores JoinTree.IsPrefix (c.translate e)
  | .member owner _ _ => Restores.entering (translate_restores owner)
  | .staticMember .. | .constant .. => translateClosed_restores
  | .param .. =>
    Restores.bind Restores.frame fun _ => Restores.onStore resolve_grows_always
  | .unary .convert operand => translate_restores operand
  | .binary op left right => by
    refine translateNode_restores ?_
    have hleft := translate_restores left
    have hright := translate_restores right
    split
    · exact translateOpen_restores (Restores.fail _)
    · refine Restores.ite (translateLogical_restores hleft hright) (Restores.ite ?_ ?_)
      · exact translateComparison_restores hleft hright
      · exact translateArithmetic_restores hleft hright
  | .unary .not operand =>
    translateNode_restores (Restores.entering
      (translateCondition_restores (translate_restores operand)))
  | .unary .negate operand =>
    translateNode_restores (Restores.entering (Restores.entering
      (Restores.bind (translate_restores operand) fun _ => Restores.pure _)))
  | .staticCall _ [_, item] =>
    translateNode_restores (translateOpen_restores (Restores.entering
      (Restores.ite (translateIn_restores (translate_restores item)) (Restores.fail _))))
  | .call target _ [] =>
    translateNode_restores (translateOpen_restores (Restores.entering
      (translateWithoutArgs_restores (translate_restores target))))
  | .call target _ [arg] =>
    translateNode_restores (translateOpen_restores (Restores.entering
      (translateWithArg_restores (translate_restores target) (translate_restores arg))))
  | .staticCall _ [] | .staticCall _ [_] | .staticCall _ (_ :: _ :: _ :: _)
  | .call _ _ (_ :: _ :: _) =>
    translateNode_restores (translateOpen_restores (Restores.entering (Restores.fail _)))
  | .new .. | .array .. => translateNode_restores evaluated_restores
  | .conditional test ifTrue ifFalse => by
    refine translateNode_restores (Restores.entering ?_)
    refine Restores.bind (Restores.entering
      (translateCondition_restores (translate_restores test))) fun _ => ?_
    refine Restores.bind (translateCondition_restores (translate_restores ifTrue)) fun _ => ?_
    refine Restores.bind (translateCondition_restores (translate_restores ifFalse)) fun _ => ?_
    exact Restores.pure _
  | .lambda _ body =>
    translateNode_restores (Restores.withLambda
      (translateCondition_restores (translate_restores body)))

end Context

/-! ### The walk and the term -/

namespace Walk

variable {α β : Type}

/-- A walk without what it leaves behind where it fails. -/
def result (w : Walk α) : StateT JoinTree (Except QueryError) α := fun t =>
  match (w.run t : Except QueryError α × JoinTree) with
  | (.ok a, t') => .ok (a, t')
  | (.error err, _) => .error err

theorem result_bind (w : Walk α) (f : α → Walk β) :
    (w >>= f).result = w.result >>= fun a => (f a).result := by
  funext t
  show result (w >>= f) t = (w.result t >>= fun x => (f x.1).result x.2)
  unfold result
  rw [run_bind]
  rcases (w.run t : Except QueryError α × JoinTree) with ⟨_ | _, _⟩ <;> rfl

end Walk

namespace Stacked

variable {α β : Type} {s : Scope} {n : UInt32} {w w' : Stacked JoinTree α} {v v' : Walk α}

/-- Over all stacks with the scope `s` and the counter `n`, the walk does what the walk `v` does. -/
def Translates (s : Scope) (n : UInt32) (w : Stacked JoinTree α) (v : Walk α) : Prop :=
  Mirrors s n w v.result

namespace Translates

theorem pure (a : α) : Translates s n (Pure.pure a) (Pure.pure a) :=
  Mirrors.pure a

theorem fail (err : QueryError) : Translates s n (Stacked.fail err) (throw err : Walk α) :=
  Mirrors.fail err

theorem lift (x : Except QueryError α) : Translates s n (liftM x) (liftM x) := by
  cases x with
  | ok a => exact pure a
  | error err => exact fail err

theorem bind {f : α → Stacked JoinTree β} {g : α → Walk β} (hw : Translates s n w v)
    (hf : ∀ a, Translates s n (f a) (g a)) : Translates s n (w >>= f) (v >>= g) := by
  unfold Translates
  rw [Walk.result_bind]
  exact Mirrors.bind hw hf

theorem frame_bind {f : Stacks → Stacked JoinTree α}
    (h : ∀ k : Stacks, k.scope = s → Translates s n (f k) v) : Translates s n (frame >>= f) v :=
  Mirrors.frame_bind h

theorem ite {p : Prop} [Decidable p] (h : p → Translates s n w v)
    (h' : ¬ p → Translates s n w' v') :
    Translates s n (if p then w else w') (if p then v else v') := by
  split
  · exact h ‹_›
  · exact h' ‹_›

/-- A walk that only needs the scope. -/
theorem onStore (v : Walk α) : Translates s n (Stacked.onStore v.run) v := by
  intro k t visited _ _
  show Matches k (v.result t) ((v.run t : Except QueryError α × JoinTree).1.mapError .failed,
    ⟨k, (v.run t : Except QueryError α × JoinTree).2, visited⟩)
  unfold Walk.result
  rcases (v.run t : Except QueryError α × JoinTree) with ⟨err | a, t'⟩
  · exact ⟨rfl, rfl, fun _ _ h => by cases h⟩
  · refine ⟨rfl, rfl, fun _ _ h => ?_⟩
    obtain ⟨-, rfl⟩ := Prod.mk.inj (Except.ok.inj h)
    rfl

theorem operator {op : Sql.Operator} (h : Translates s n w v) :
    Translates s n (entering (.operator op) w) v :=
  Mirrors.operator h

theorem neutral (h : Translates s.neutral 0 w v) : Translates s n (entering .neutral w) v :=
  Mirrors.neutral h

theorem member {name : String} (h : Translates (s.withMember name) n w v) :
    Translates s n (entering (.member name) w) v :=
  Mirrors.member h

theorem isolated (h : Translates s.isolated n w v) : Translates s n (entering .isolated w) v :=
  Mirrors.isolated h

theorem inverted (hroom : n.toNat + 1 < UInt32.size) (h : Translates s.inverted (n + 1) w v) :
    Translates s n (entering .inverted w) v :=
  Mirrors.inverted hroom h

theorem withLambda {params : List Param} {v : Scope → Walk α}
    (h : ∀ s', Translates s' n w (v s')) :
    Translates s n (Stacked.withLambda params w) (liftM (s.enter params) >>= v) := by
  unfold Translates
  rw [Walk.result_bind]
  have hlift : (liftM (s.enter params) : Walk Scope).result = liftM (s.enter params) := by
    cases s.enter params <;> rfl
  rw [hlift]
  exact Mirrors.withLambda h

end Translates

end Stacked

namespace Context

open Stacked (Translates)

variable {V : Type} {c : Context V} {s : Scope} {n : UInt32} {e left right : Expr}
  {w wLeft wRight : Stacked JoinTree Term} {v vLeft vRight : Walk Term}

theorem translateArithmetic_translates {op : BinaryOp} {operator : Sql.Operator} {s' : Scope}
    (hs : s'.binders = s.binders)
    (hleft : Translates s.neutral 0 wLeft vLeft) (hright : Translates s.neutral 0 wRight vRight) :
    Translates s n (c.translateArithmetic op operator left right wLeft wRight)
      (c.arithmetic s' op operator left right vLeft vRight) := by
  refine Translates.frame_bind fun k hk => Translates.operator (Translates.neutral ?_)
  subst hk
  refine Translates.bind hleft fun _ => Translates.bind hright fun _ => ?_
  rw [staticType?_congr c hs, staticType?_congr c hs]
  exact Translates.ite (fun _ => Translates.pure _) fun _ => Translates.pure _

variable [ClosedEvaluator V]

theorem literal_eq_bind : (liftM (c.literal s e) : Walk Term) = (do
    let value ← liftM (ClosedEvaluator.evaluate c.evaluator e)
    let value ← liftM (drill value s.pending)
    liftM (literalOf value)) := by
  unfold literal boundary
  cases ClosedEvaluator.evaluate c.evaluator e with
  | error err => rfl
  | ok value =>
    show liftM (drill value s.pending >>= literalOf) =
      (liftM (drill value s.pending) >>= fun value => liftM (literalOf value) : Walk Term)
    cases drill value s.pending <;> rfl

theorem translateClosed_translates :
    Translates s n (c.translateClosed e) (liftM (c.literal s e)) := by
  rw [literal_eq_bind]
  refine Translates.bind (Translates.operator (Translates.lift _)) fun value => ?_
  refine Translates.frame_bind fun k hk => ?_
  subst hk
  exact Translates.bind (Translates.lift _) fun value => Translates.lift _

theorem translateCondition_translates (h : Translates s n w v) :
    Translates s n (translateCondition e w) (asCondition s e v) := by
  refine Translates.bind h fun term => Translates.frame_bind fun k hk => ?_
  subst hk
  refine Translates.ite (fun _ => ?_) fun _ => Translates.pure _
  exact Translates.bind (Translates.lift _) fun _ =>
    Translates.ite (fun _ => Translates.pure _) fun _ => Translates.pure _

/-- Where no member waits for a node, it is isolated as it stands. -/
theorem translateNode_translates (h : Translates s.isolated n w v) :
    Translates s n (c.translateNode e w) (c.withMembers s e v) := by
  refine Translates.frame_bind fun k hk => ?_
  subst hk
  unfold withMembers
  show Translates k.scope n _ (match k.members with
    | [] => v
    | first :: _ => _)
  cases hmembers : k.members with
  | nil =>
    have hisolated : k.scope.isolated = k.scope := by
      show { k.scope with pending := [] } = k.scope
      rw [← hmembers]
      rfl
    rw [hisolated] at h
    exact h
  | cons first rest =>
    refine Translates.bind (Translates.lift _) fun closed =>
      Translates.ite (fun _ => translateClosed_translates) fun _ => ?_
    cases c.staticType? k.scope e with
    | none => exact Translates.fail _
    | some type =>
      show Translates k.scope n _ (v >>= fun term => liftM (scalarMembers term type k.members))
      rw [hmembers]
      exact Translates.bind (Translates.isolated h) fun term => Translates.lift _

theorem translateOpen_translates (h : Translates s.isolated n w v) :
    Translates s.isolated n (c.translateOpen e w) (c.closedOr s e v) :=
  Translates.bind (Translates.lift _) fun _ =>
    Translates.ite (fun _ => translateClosed_translates) fun _ => h

theorem translateLogical_translates {operator : Sql.Operator} (hleft : Translates s n wLeft vLeft)
    (hright : Translates s n wRight vRight) :
    Translates s n (translateLogical operator left right wLeft wRight) (do
      let left ← asCondition s left vLeft
      let right ← asCondition s right vRight
      return .operation left (operator.invertIf s.negated) right) := by
  refine Translates.frame_bind fun k hk => Translates.operator ?_
  subst hk
  exact Translates.bind (translateCondition_translates hleft) fun _ =>
    Translates.bind (translateCondition_translates hright) fun _ => Translates.pure _

theorem translateComparison_translates {operator : Sql.Operator}
    (hleft : Translates s.neutral 0 wLeft vLeft) (hright : Translates s.neutral 0 wRight vRight) :
    Translates s n (c.translateComparison operator left right wLeft wRight)
      (c.comparison (operator.invertIf s.negated) left right vLeft vRight) := by
  refine Translates.frame_bind fun k hk => ?_
  subst hk
  refine Translates.bind (Translates.lift _) fun test => ?_
  cases test with
  | none =>
    exact Translates.operator (Translates.neutral
      (Translates.bind hleft fun _ => Translates.bind hright fun _ => Translates.pure _))
  | some test =>
    refine Translates.operator (Translates.neutral (Translates.ite (fun _ => ?_) fun _ => ?_))
    · exact Translates.bind hright fun _ => Translates.pure _
    · exact Translates.bind hleft fun _ => Translates.pure _

theorem translateIn_translates {collection : Expr} {s' : Scope} (hs : s'.negated = s.negated)
    (h : Translates s.neutral 0 w v) :
    Translates s n (c.translateIn collection w) (c.inList s' collection v) := by
  unfold inList
  rw [hs]
  refine Translates.bind (Translates.lift _) fun _ => ?_
  refine Translates.ite (fun _ => ?_) fun _ => Translates.fail _
  refine Translates.frame_bind fun k hk => Translates.bind (Translates.lift _) fun _ => ?_
  subst hk
  refine Translates.ite (fun _ => Translates.pure _) fun _ => ?_
  refine Translates.bind (Translates.neutral h) fun _ =>
    Translates.bind (Translates.lift _) fun _ => ?_
  refine Translates.ite (fun _ => Translates.pure _) fun _ => ?_
  exact Translates.ite (fun _ => Translates.pure _) fun _ => Translates.pure _

theorem translateLike_translates {method : Method} {anchor : Text.Anchor} {pattern : Expr}
    {s' : Scope} (hs : s'.negated = s.negated) (hleft : Translates s.neutral 0 wLeft vLeft)
    (hright : Translates s.neutral 0 wRight vRight) :
    Translates s n (c.translateLike method anchor pattern wLeft wRight)
      (c.like s' method anchor pattern vLeft vRight) := by
  unfold like
  rw [hs]
  refine Translates.frame_bind fun k hk => Translates.bind (Translates.neutral hleft) fun _ => ?_
  subst hk
  refine Translates.bind (Translates.lift _) fun _ =>
    Translates.ite (fun _ => Translates.bind (Translates.lift _) fun value => ?_) fun _ => ?_
  · cases value with
    | string text => exact Translates.pure _
    | _ => exact Translates.fail _
  · exact Translates.bind (Translates.neutral hright) fun _ => Translates.pure _

theorem translateWithArg_translates {method : Method} {target arg : Expr} {s' : Scope}
    (hs : s'.negated = s.negated) (hleft : Translates s.neutral 0 wLeft vLeft)
    (hright : Translates s.neutral 0 wRight vRight) :
    Translates s n (c.translateWithArg method target arg wLeft wRight)
      (c.callWithArg s' method target arg vLeft vRight) := by
  refine Translates.ite (fun _ => translateIn_translates hs hright) fun _ => ?_
  cases method.declaringType with
  | string =>
    cases method.anchor? with
    | none => exact Translates.fail _
    | some anchor => exact translateLike_translates hs hleft hright
  | _ => exact Translates.fail _

theorem translateWithoutArgs_translates {method : Method} (h : Translates s.neutral 0 w v) :
    Translates s n (translateWithoutArgs method w) (callWithoutArgs method v) := by
  unfold translateWithoutArgs callWithoutArgs
  cases method.declaringType with
  | string =>
    cases method.function? with
    | none => exact Translates.fail _
    | some function => exact Translates.bind (Translates.neutral h) fun _ => Translates.pure _
  | _ => exact Translates.fail _

theorem evaluated_translates {err : QueryError} : Translates s.isolated n (do
    if ← e.isClosed then entering (.operator .new) (c.translateClosed e) else fail err)
    (c.closedOr s e (throw err)) :=
  Translates.bind (Translates.lift _) fun _ =>
    Translates.ite (fun _ => Translates.operator translateClosed_translates) fun _ =>
      Translates.fail _

/-- Over stacks, the walk of an expression does what it does without them, as long as there is room
in the counter for all negations of the expression. -/
theorem translate_translates : ∀ (e : Expr) {s : Scope} {n : UInt32},
    n.toNat + e.height < UInt32.size → Translates s n (c.translate e) (c.term s e)
  | .member owner _ _, _, _, h => by
    rw [Expr.height] at h
    exact Translates.member (translate_translates owner (by omega))
  | .staticMember .., _, _, _ | .constant .., _, _, _ => translateClosed_translates
  | .param .., _, _, _ => by
    refine Translates.frame_bind fun k hk => ?_
    subst hk
    exact Translates.onStore _
  | .unary op operand, _, n, h => by
    rw [Expr.height] at h
    have hoperand {s : Scope} : Translates s 0 (c.translate operand) (c.term s operand) :=
      translate_translates operand (by show 0 + _ < _; omega)
    cases op with
    | convert => exact translate_translates operand (by omega)
    | not =>
      have hroom : n.toNat + 1 < UInt32.size := by omega
      refine translateNode_translates (Translates.inverted hroom
        (translateCondition_translates (translate_translates operand ?_)))
      rw [Entry.toNat_add_one hroom]
      omega
    | negate =>
      exact translateNode_translates (Translates.operator (Translates.neutral
        (Translates.bind hoperand fun _ => Translates.pure _)))
  | .binary op left right, s, n, h => by
    rw [Expr.height] at h
    have hleft {s : Scope} {n' : UInt32} (hn' : n'.toNat ≤ n.toNat) :
        Translates s n' (c.translate left) (c.term s left) :=
      translate_translates left (by omega)
    have hright {s : Scope} {n' : UInt32} (hn' : n'.toNat ≤ n.toNat) :
        Translates s n' (c.translate right) (c.term s right) :=
      translate_translates right (by omega)
    have hzero : (0 : UInt32).toNat ≤ n.toNat := Nat.zero_le _
    refine translateNode_translates ?_
    cases Sql.Operator.ofBinary? op with
    | none => exact translateOpen_translates (Translates.fail _)
    | some operator =>
      refine Translates.ite (fun _ => ?_) fun _ => Translates.ite (fun _ => ?_) fun _ => ?_
      · exact translateLogical_translates (hleft (Nat.le_refl _)) (hright (Nat.le_refl _))
      · exact translateComparison_translates (hleft hzero) (hright hzero)
      · exact translateArithmetic_translates rfl (hleft hzero) (hright hzero)
  | .staticCall _ [_, item], _, n, h => by
    have hroom : (0 : UInt32).toNat + item.height < UInt32.size := by
      simp only [Expr.height, Expr.heightOfAll] at h
      show 0 + _ < _
      omega
    exact translateNode_translates (translateOpen_translates (Translates.operator
      (Translates.ite (fun _ => translateIn_translates rfl (translate_translates item hroom))
        fun _ => Translates.fail _)))
  | .call target _ [], _, _, h => by
    have hroom : (0 : UInt32).toNat + target.height < UInt32.size := by
      simp only [Expr.height, Expr.heightOfAll] at h
      show 0 + _ < _
      omega
    exact translateNode_translates (translateOpen_translates (Translates.operator
      (translateWithoutArgs_translates (translate_translates target hroom))))
  | .call target _ [arg], _, _, h => by
    have hroom : (0 : UInt32).toNat + target.height < UInt32.size ∧
        (0 : UInt32).toNat + arg.height < UInt32.size := by
      simp only [Expr.height, Expr.heightOfAll] at h
      show 0 + _ < _ ∧ 0 + _ < _
      omega
    exact translateNode_translates (translateOpen_translates (Translates.operator
      (translateWithArg_translates rfl (translate_translates target hroom.1)
        (translate_translates arg hroom.2))))
  | .staticCall _ [], _, _, _ | .staticCall _ [_], _, _, _
  | .staticCall _ (_ :: _ :: _ :: _), _, _, _ | .call _ _ (_ :: _ :: _), _, _, _ =>
    translateNode_translates (translateOpen_translates (Translates.operator (Translates.fail _)))
  | .new .., _, _, _ | .array .., _, _, _ => translateNode_translates evaluated_translates
  | .conditional test ifTrue ifFalse, _, n, h => by
    rw [Expr.height] at h
    refine translateNode_translates (Translates.operator ?_)
    refine Translates.bind (Translates.neutral
      (translateCondition_translates (translate_translates test ?_))) fun _ => ?_
    · show 0 + _ < _
      omega
    refine Translates.bind (translateCondition_translates
      (translate_translates ifTrue (by omega))) fun _ => ?_
    refine Translates.bind (translateCondition_translates
      (translate_translates ifFalse (by omega))) fun _ => ?_
    exact Translates.pure _
  | .lambda _ body, _, _, h => by
    rw [Expr.height] at h
    exact translateNode_translates (Translates.withLambda fun _ =>
      translateCondition_translates (translate_translates body (by omega)))

end Context

end PredicateSql
