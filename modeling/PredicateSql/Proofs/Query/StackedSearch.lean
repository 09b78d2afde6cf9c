import PredicateSql.Proofs.Query.Findings
import PredicateSql.Proofs.Query.StackedTerms

/-!
# Searches by a walk over stacks

* `Context.explore`: what a subtree stands for, by a walk over stacks that writes what it finds
  within the subtree into the findings.
* `Context.explore_restores`: from whatever stacks the walk starts and whatever comes of it, it
  leaves the same stacks, and loses no value that was found.
* `Context.explore_mirrors`: the walk finds what `Context.search` does, as long as there is room in
  the counter of negations.
* `Context.walks_leave_as_found`: what both walks leave.
-/

namespace PredicateSql

open Stacked (entering frame onStore fail Restores Mirrors)

namespace Context

variable {V : Type} [ClosedEvaluator V]

/-! ### The walk -/

/-- A closed subtree stands for its elements. -/
def exploreClosed (c : Context V) (e : Expr) : Stacked Findings (Option Operand) := do
  let value ← ClosedEvaluator.evaluate c.evaluator e
  let value ← drill value (← frame).members
  return some (.values value.toList)

/-- Writes the finding of a comparison, if it has one. -/
def exploreFinding (a b : Option Operand) : Stacked Findings Unit :=
  onStore fun found => (.ok (), (Finding.of? a b).elim found found.write)

/-- A subtree that contributes by what is within it, and stands for its value if it is closed. No
member reaches into it. -/
def exploreNode (c : Context V) (e : Expr) (walk : Stacked Findings Unit) :
    Stacked Findings (Option Operand) := do
  if ← e.isClosed then c.exploreClosed e
  else
    if (← frame).members.isEmpty then walk else entering .isolated walk
    return none

/-- The membership of an item in a collection. -/
def exploreContains (walkCollection walkItem : Stacked Findings (Option Operand)) :
    Stacked Findings Unit := do
  let negated := (← frame).isInverted
  let (collection, item) ← entering .neutral do
    let collection ← walkCollection
    let item ← walkItem
    return (collection, item)
  if !negated then exploreFinding item collection

/-- What a subtree stands for. -/
def explore (c : Context V) : Expr → Stacked Findings (Option Operand)
  | .member owner _ name => entering (.member name) (c.explore owner)
  | .staticMember type name => c.exploreClosed (.staticMember type name)
  | .constant type value => c.exploreClosed (.constant type value)
  | .param name model => do
    let s := (← frame).scope
    c.operandOf s name model
  | .unary .convert operand => c.explore operand
  | .lambda params body => Stacked.withLambda params (c.explore body)
  | .binary .index sequence index =>
    let e := Expr.binary .index sequence index
    c.exploreNode e (fail (.unsupportedOperator e.kind "ArrayIndex"))
  | .binary .equal left right =>
    c.exploreNode (.binary .equal left right) do
      let (left, right) ← entering .neutral do
        let left ← c.explore left
        let right ← c.explore right
        return (left, right)
      exploreFinding left right
  | .binary op left right =>
    c.exploreNode (.binary op left right) <|
      if op.isLogical then do
        let _ ← c.explore left
        let _ ← c.explore right
      else
        entering .neutral do
          let _ ← c.explore left
          let _ ← c.explore right
  | .unary .not operand =>
    c.exploreNode (.unary .not operand) do
      let _ ← entering .inverted (c.explore operand)
  | .unary .negate operand =>
    c.exploreNode (.unary .negate operand) do
      let _ ← entering .neutral (c.explore operand)
  | .staticCall method [collection, item] =>
    c.exploreNode (.staticCall method [collection, item]) <|
      if method.known? = some .contains ∧ method.declaringType.isSequence then
        exploreContains (c.explore collection) (c.explore item)
      else fail (.unsupportedMethod method)
  | .staticCall method args =>
    c.exploreNode (.staticCall method args) (fail (.unsupportedMethod method))
  | .call target method [item] =>
    c.exploreNode (.call target method [item]) <|
      if method.known? = some .contains ∧ method.declaringType.isSequence then
        exploreContains (c.explore target) (c.explore item)
      else if isSearchable method then pure ()
      else fail (.unsupportedMethod method)
  | .call target method args =>
    c.exploreNode (.call target method args) <|
      if isSearchable method then pure () else fail (.unsupportedMethod method)
  | .new type args =>
    let e := Expr.new type args
    c.exploreNode e (fail (.notEvaluatable e.kind))
  | .array type items =>
    let e := Expr.array type items
    c.exploreNode e (fail (.notEvaluatable e.kind))
  | .conditional test ifTrue ifFalse =>
    c.exploreNode (.conditional test ifTrue ifFalse) do
      let _ ← entering .neutral (c.explore test)
      let _ ← c.explore ifTrue
      let _ ← c.explore ifFalse

/-! ### What the walk leaves -/

instance : IsPreorder Findings Findings.IsPrefix where
  refl := Findings.IsPrefix.refl
  trans _ _ _ := Findings.IsPrefix.trans

variable {c : Context V} {e left right : Expr} {walk : Stacked Findings Unit}
  {walkLeft walkRight : Stacked Findings (Option Operand)}

theorem exploreClosed_restores : Restores Findings.IsPrefix (c.exploreClosed e) :=
  Restores.bind (Restores.lift _) fun _ => Restores.bind Restores.frame fun _ =>
    Restores.bind (Restores.lift _) fun _ => Restores.pure _

theorem exploreFinding_restores {a b : Option Operand} :
    Restores Findings.IsPrefix (exploreFinding a b) := by
  refine Restores.onStore fun found => ?_
  cases Finding.of? a b with
  | none => exact .refl found
  | some f => exact found.isPrefix_write f

theorem exploreNode_restores (h : Restores Findings.IsPrefix walk) :
    Restores Findings.IsPrefix (c.exploreNode e walk) := by
  refine Restores.bind (Restores.lift _) fun _ => Restores.ite exploreClosed_restores ?_
  refine Restores.bind Restores.frame fun _ => Restores.ite ?_ ?_
  · exact Restores.bind h fun _ => Restores.pure _
  · exact Restores.bind (Restores.entering h) fun _ => Restores.pure _

/-- The walks of two operands, one after the other. -/
theorem explorePair_restores (hleft : Restores Findings.IsPrefix walkLeft)
    (hright : Restores Findings.IsPrefix walkRight) : Restores Findings.IsPrefix (do
      let left ← walkLeft
      let right ← walkRight
      return (left, right)) :=
  Restores.bind hleft fun _ => Restores.bind hright fun _ => Restores.pure _

theorem exploreContains_restores (hleft : Restores Findings.IsPrefix walkLeft)
    (hright : Restores Findings.IsPrefix walkRight) :
    Restores Findings.IsPrefix (exploreContains walkLeft walkRight) := by
  refine Restores.bind Restores.frame fun _ => Restores.bind
    (Restores.entering (explorePair_restores hleft hright)) fun _ => ?_
  exact Restores.ite exploreFinding_restores (Restores.pure _)

/-- The walk of a search restores its stacks and loses no value that was found. -/
theorem explore_restores : ∀ e : Expr, Restores Findings.IsPrefix (c.explore e)
  | .member owner _ _ => Restores.entering (explore_restores owner)
  | .staticMember .. | .constant .. => exploreClosed_restores
  | .param .. => Restores.bind Restores.frame fun _ => Restores.lift _
  | .unary .convert operand => explore_restores operand
  | .lambda _ body => Restores.withLambda (explore_restores body)
  | .unary .not operand | .unary .negate operand =>
    exploreNode_restores (Restores.bind (Restores.entering (explore_restores operand)) fun _ =>
      Restores.pure _)
  | .binary op left right => by
    have hleft := explore_restores left
    have hright := explore_restores right
    have hboth := Restores.bind hleft fun _ => Restores.bind hright fun _ => Restores.pure ()
    cases op with
    | index => exact exploreNode_restores (Restores.fail _)
    | equal =>
      exact exploreNode_restores (Restores.bind
        (Restores.entering (explorePair_restores hleft hright)) fun _ => exploreFinding_restores)
    | _ => exact exploreNode_restores (Restores.ite hboth (Restores.entering hboth))
  | .staticCall _ [collection, item] =>
    exploreNode_restores (Restores.ite
      (exploreContains_restores (explore_restores collection) (explore_restores item))
      (Restores.fail _))
  | .call target _ [item] =>
    exploreNode_restores (Restores.ite
      (exploreContains_restores (explore_restores target) (explore_restores item))
      (Restores.ite (Restores.pure _) (Restores.fail _)))
  | .call _ _ [] | .call _ _ (_ :: _ :: _) =>
    exploreNode_restores (Restores.ite (Restores.pure _) (Restores.fail _))
  | .staticCall _ [] | .staticCall _ [_] | .staticCall _ (_ :: _ :: _ :: _)
  | .new .. | .array .. => exploreNode_restores (Restores.fail _)
  | .conditional test ifTrue ifFalse => by
    refine exploreNode_restores ?_
    refine Restores.bind (Restores.entering (explore_restores test)) fun _ => ?_
    refine Restores.bind (explore_restores ifTrue) fun _ => ?_
    exact Restores.bind (explore_restores ifFalse) fun _ => Restores.pure _

/-! ### The walk and the search -/

variable {s : Scope} {n : UInt32} {w : Stacked Findings Unit} {v : Search Unit}
  {wLeft wRight : Stacked Findings (Option Operand)} {vLeft vRight : Search (Option Operand)}

theorem closedOperand_eq_bind : (liftM (c.closedOperand s e) : Search (Option Operand)) = (do
    let value ← liftM (ClosedEvaluator.evaluate c.evaluator e)
    let value ← liftM (drill value s.pending)
    return some (.values value.toList)) := by
  unfold closedOperand boundary
  cases ClosedEvaluator.evaluate c.evaluator e with
  | error err => rfl
  | ok value =>
    show liftM (drill value s.pending >>= fun value => pure (some (.values value.toList))) =
      (liftM (drill value s.pending) >>= fun value => pure (some (.values value.toList)) :
        Search (Option Operand))
    cases drill value s.pending <;> rfl

theorem exploreClosed_mirrors : Mirrors s n (c.exploreClosed e) (liftM (c.closedOperand s e)) := by
  rw [closedOperand_eq_bind]
  refine Mirrors.bind (Mirrors.lift _) fun value => Mirrors.frame_bind fun k hk => ?_
  subst hk
  exact Mirrors.bind (Mirrors.lift _) fun value => Mirrors.pure _

theorem exploreFinding_mirrors {a b : Option Operand} :
    Mirrors s n (exploreFinding a b) (contribute a b) := by
  refine fun k t visited _ _ => ⟨rfl, rfl, fun _ _ h => ?_⟩
  obtain ⟨-, rfl⟩ := Prod.mk.inj (Except.ok.inj h)
  rfl

theorem exploreNode_mirrors (h : Mirrors s.isolated n w v) :
    Mirrors s n (c.exploreNode e w) (c.searchNode s e v) := by
  refine Mirrors.bind (Mirrors.lift _) fun _ =>
    Mirrors.ite (fun _ => exploreClosed_mirrors) fun _ => ?_
  refine Mirrors.frame_bind fun k hk => ?_
  subst hk
  cases hmembers : k.members with
  | nil =>
    have hisolated : k.scope.isolated = k.scope := by
      show { k.scope with pending := [] } = k.scope
      rw [← hmembers]
      rfl
    rw [hisolated] at h
    exact Mirrors.bind h fun _ => Mirrors.pure _
  | cons first rest => exact Mirrors.bind (Mirrors.isolated h) fun _ => Mirrors.pure _

/-- Two operands that are both values, and what is done with them. -/
theorem explorePair_mirrors {f : Option Operand → Option Operand → Stacked Findings Unit}
    {g : Option Operand → Option Operand → Search Unit} (hleft : Mirrors s.neutral 0 wLeft vLeft)
    (hright : Mirrors s.neutral 0 wRight vRight) (hf : ∀ a b, Mirrors s n (f a b) (g a b)) :
    Mirrors s n (do
        let (left, right) ← entering .neutral do
          let left ← wLeft
          let right ← wRight
          return (left, right)
        f left right)
      (do
        let left ← vLeft
        let right ← vRight
        g left right) := by
  have hpair : Mirrors s n (entering .neutral do
        let left ← wLeft
        let right ← wRight
        return (left, right))
      (do
        let left ← vLeft
        let right ← vRight
        return (left, right)) :=
    Mirrors.neutral (Mirrors.bind hleft fun _ => Mirrors.bind hright fun _ => Mirrors.pure _)
  have hboth := Mirrors.bind hpair fun x => hf x.1 x.2
  simp only [bind_assoc, pure_bind] at hboth
  exact hboth

theorem exploreContains_mirrors {s' : Scope} (hs : s'.negated = s.negated)
    (hleft : Mirrors s.neutral 0 wLeft vLeft) (hright : Mirrors s.neutral 0 wRight vRight) :
    Mirrors s n (exploreContains wLeft wRight) (searchContains s'.negated vLeft vRight) := by
  rw [hs]
  refine Mirrors.frame_bind fun k hk => ?_
  subst hk
  have hfinding : ∀ collection item, Mirrors k.scope n
      (if !k.isInverted then exploreFinding item collection else Pure.pure ())
      (if !k.isInverted then contribute item collection else Pure.pure ()) := fun _ _ =>
    Mirrors.ite (fun _ => exploreFinding_mirrors) fun _ => Mirrors.pure _
  exact explorePair_mirrors hleft hright hfinding

/-- Over stacks, the walk of a search does what it does without them, as long as there is room in
the counter for all negations of the expression. -/
theorem explore_mirrors : ∀ (e : Expr) {s : Scope} {n : UInt32},
    n.toNat + e.height < UInt32.size → Mirrors s n (c.explore e) (c.search s e)
  | .member owner _ _, _, _, h => by
    rw [Expr.height] at h
    exact Mirrors.member (explore_mirrors owner (by omega))
  | .staticMember .., _, _, _ | .constant .., _, _, _ => exploreClosed_mirrors
  | .param .., _, _, _ => by
    refine Mirrors.frame_bind fun k hk => ?_
    subst hk
    exact Mirrors.lift _
  | .lambda _ body, _, _, h => by
    rw [Expr.height] at h
    exact Mirrors.withLambda fun _ => explore_mirrors body (by omega)
  | .unary op operand, s, n, h => by
    rw [Expr.height] at h
    cases op with
    | convert => exact explore_mirrors operand (by omega)
    | not =>
      have hroom : n.toNat + 1 < UInt32.size := by omega
      have hoperand : Mirrors s.isolated.inverted (n + 1) (c.explore operand) _ :=
        explore_mirrors operand (by
          rw [Entry.toNat_add_one hroom]
          omega)
      exact exploreNode_mirrors (Mirrors.bind (Mirrors.inverted hroom hoperand) fun _ =>
        Mirrors.pure _)
    | negate =>
      have hoperand : Mirrors s.isolated.neutral 0 (c.explore operand) _ :=
        explore_mirrors operand (by show 0 + _ < _; omega)
      exact exploreNode_mirrors (Mirrors.bind (Mirrors.neutral hoperand) fun _ => Mirrors.pure _)
  | .binary op left right, s, n, h => by
    rw [Expr.height] at h
    have hleft {s : Scope} {n' : UInt32} (hn' : n'.toNat ≤ n.toNat) :
        Mirrors s n' (c.explore left) (c.search s left) := explore_mirrors left (by omega)
    have hright {s : Scope} {n' : UInt32} (hn' : n'.toNat ≤ n.toNat) :
        Mirrors s n' (c.explore right) (c.search s right) := explore_mirrors right (by omega)
    have hboth {s : Scope} {n' : UInt32} (hn' : n'.toNat ≤ n.toNat) :
        Mirrors s n' (do
            let _ ← c.explore left
            let _ ← c.explore right)
          (do
            let _ ← c.search s left
            let _ ← c.search s right) :=
      Mirrors.bind (hleft hn') fun _ => Mirrors.bind (hright hn') fun _ => Mirrors.pure _
    have hzero : (0 : UInt32).toNat ≤ n.toNat := Nat.zero_le _
    cases op with
    | index => exact exploreNode_mirrors (Mirrors.fail _)
    | equal =>
      exact exploreNode_mirrors
        (explorePair_mirrors (hleft hzero) (hright hzero) fun _ _ => exploreFinding_mirrors)
    | and | or => exact exploreNode_mirrors (hboth (Nat.le_refl _))
    | _ => exact exploreNode_mirrors (Mirrors.neutral (hboth hzero))
  | .staticCall _ [collection, item], _, n, h => by
    simp only [Expr.height, Expr.heightOfAll] at h
    exact exploreNode_mirrors (Mirrors.ite (fun _ => exploreContains_mirrors rfl
      (explore_mirrors collection (by show 0 + _ < _; omega))
      (explore_mirrors item (by show 0 + _ < _; omega))) fun _ => Mirrors.fail _)
  | .call target _ [item], _, n, h => by
    simp only [Expr.height, Expr.heightOfAll] at h
    refine exploreNode_mirrors (Mirrors.ite (fun _ => exploreContains_mirrors rfl
      (explore_mirrors target (by show 0 + _ < _; omega))
      (explore_mirrors item (by show 0 + _ < _; omega))) fun _ => ?_)
    exact Mirrors.ite (fun _ => Mirrors.pure _) fun _ => Mirrors.fail _
  | .call _ _ [], _, _, _ | .call _ _ (_ :: _ :: _), _, _, _ =>
    exploreNode_mirrors (Mirrors.ite (fun _ => Mirrors.pure _) fun _ => Mirrors.fail _)
  | .staticCall _ [], _, _, _ | .staticCall _ [_], _, _, _
  | .staticCall _ (_ :: _ :: _ :: _), _, _, _ | .new .., _, _, _ | .array .., _, _, _ =>
    exploreNode_mirrors (Mirrors.fail _)
  | .conditional test ifTrue ifFalse, s, n, h => by
    rw [Expr.height] at h
    have htest : Mirrors s.isolated.neutral 0 (c.explore test) _ :=
      explore_mirrors test (by show 0 + _ < _; omega)
    refine exploreNode_mirrors (Mirrors.bind (Mirrors.neutral htest) fun _ => ?_)
    refine Mirrors.bind (explore_mirrors ifTrue (by omega)) fun _ => ?_
    exact Mirrors.bind (explore_mirrors ifFalse (by omega)) fun _ => Mirrors.pure _

/-! ### Both walks -/

/-- From whatever stacks they start and whatever comes of them, the walk for a term and the walk of
a search leave the same stacks: parameters, operators, waiting members and the counter of negations.
The counter is nowhere below its value at the start, so it never underflows, and as long as there is
room in it the walks are `Context.term` and `Context.search` of the scope that the stacks stand for.
The join tree starts with the one that the walk was given, and no value that was found before is
lost, even after a failure. -/
theorem walks_leave_as_found (c : Context V) (e : Expr) (k : Stacks) (tree : JoinTree)
    (found : Findings) :
    Stacked.LeavesAsFound JoinTree.IsPrefix k tree ((c.translate e).outcome ⟨k, tree, []⟩) ∧
      Stacked.LeavesAsFound Findings.IsPrefix k found ((c.explore e).outcome ⟨k, found, []⟩) ∧
      (k.inversions.toNat + e.height < UInt32.size →
        Stacked.Matches k ((c.term k.scope e).result.run tree)
            ((c.translate e).outcome ⟨k, tree, []⟩) ∧
          Stacked.Matches k ((c.search k.scope e).run found)
            ((c.explore e).outcome ⟨k, found, []⟩)) := by
  refine ⟨(translate_restores e).leavesAsFound k tree, (explore_restores e).leavesAsFound k found,
    fun hroom => ⟨?_, ?_⟩⟩
  · exact translate_translates e hroom k tree [] rfl rfl
  · exact explore_mirrors e hroom k found [] rfl rfl

/-- Where a parameter is missed after a join, the stacks are left as they were. -/
theorem walks_leave_as_found_missing :
    let person : Model :=
      { name := "Person"
        properties := [⟨"Manager", .model "Person", false, none, true, some ⟨"Person", "Id"⟩⟩,
          ⟨"Name", .string, false, none, true, none⟩] }
    let c : Context := ⟨⟨[person], List.pairwise_singleton _ _⟩, default⟩
    let e : Expr := .unary .not (.binary .and
      (.member (.member (.param "p" "Person") "Person" "Manager") "Person" "Name")
      (.param "q" "Person"))
    let k : Stacks := { binders := [("p", "Person")], operators := [.or], inversions := 1 }
    let tree := JoinTree.ofModel person "t"
    let out := (c.translate e).outcome ⟨k, tree, []⟩
    out.1 = .error (.failed (.missingParameter "q" "Person")) ∧ out.2.frame = k ∧
      tree.IsPrefix out.2.store := by
  intro person c e k tree out
  obtain ⟨hterm, -, hroom⟩ := walks_leave_as_found c e k tree (.ofNames "Person" [])
  have hresult := (hroom (by decide)).1.result
  exact ⟨hresult, hterm.frame, hterm.store⟩

end Context

end PredicateSql
