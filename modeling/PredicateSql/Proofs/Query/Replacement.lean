import PredicateSql.Proofs.Query.Analysis
import PredicateSql.Proofs.Query.Runs

/-!
# Subtrees that stand for each other

Before a subtree is made a term, the nodes around it ask what is known of it: whether it is closed,
what its value is, whether it accounts for a negation, and in some places its declared type, or
whether it is certain to be `null`.

* `Asked`: what a place asks of the subtree that stands there.
* `Context.Replaces`: two subtrees that answer alike, and become the same term.
* `Context.Replaces.member`, `Replaces.binary` and so on: trees whose subtrees replace each other
  replace each other. There is one rule for each kind of node, and it says what the node asks of
  each subtree.
-/

namespace PredicateSql

open Sql (Term)

/-- The declared type of a member of something with a declared type, where it can be told. -/
def Context.memberType? (c : Context) (name : String) : Option ValueType → Option ValueType
  | some .string => if name = "Length" then some .int else none
  | some (.model model) => do return (← (← c.catalog.find? model).find? name).type
  | _ => none

theorem Context.staticType?_member {c : Context} {s : Scope} {owner : Expr} {type name : String} :
    c.staticType? s (.member owner type name) = c.memberType? name (c.staticType? s owner) :=
  rfl

/-- How much of the declared type of a subtree matters. -/
inductive TypeQuestion where
  | nothing
  /-- Whether it is the type of strings. -/
  | isString
  /-- How much of the declared type of a member matters. -/
  | ofMember (name : String) (question : TypeQuestion)
  | whole
  deriving DecidableEq

namespace TypeQuestion

variable {c : Context} {question : TypeQuestion} {a b d : Option ValueType}

/-- Two declared types answer the question alike. -/
def Alike (c : Context) : TypeQuestion → Option ValueType → Option ValueType → Prop
  | .nothing, _, _ => True
  | .isString, a, b => a = some .string ↔ b = some .string
  | .ofMember name question, a, b => question.Alike c (c.memberType? name a) (c.memberType? name b)
  | .whole, a, b => a = b

theorem Alike.refl : question.Alike c a a := by
  induction question generalizing a with
  | nothing => trivial
  | isString => exact Iff.rfl
  | ofMember name question ih => exact ih
  | whole => rfl

theorem alike_of_eq (h : a = b) : question.Alike c a b :=
  h ▸ Alike.refl

theorem Alike.symm (h : question.Alike c a b) : question.Alike c b a := by
  induction question generalizing a b with
  | nothing => trivial
  | isString => exact Iff.symm h
  | ofMember name question ih => exact ih h
  | whole => exact Eq.symm h

theorem Alike.trans (h : question.Alike c a b) (h' : question.Alike c b d) :
    question.Alike c a d := by
  induction question generalizing a b d with
  | nothing => trivial
  | isString => exact Iff.trans h h'
  | ofMember name question ih => exact ih h h'
  | whole => exact Eq.trans h h'

end TypeQuestion

/-- What a place asks of the subtree that stands there. -/
structure Asked where
  /-- The subtree is made a term, and not only its value is used. -/
  walked : Bool := false
  /-- How much of its declared type matters. -/
  type : TypeQuestion := .nothing
  /-- It matters whether the subtree is certain to be `null`. -/
  null : Bool := false

/-- The expression is closed, so it has a value of its own or fails to have one. -/
def Expr.isGround (e : Expr) : Bool :=
  match e.isClosed with
  | .ok closed => closed
  | .error _ => false

theorem Expr.isGround_iff {e : Expr} : e.isGround = true ↔ e.isClosed = .ok true := by
  rw [isGround]
  cases e.isClosed with
  | error => simp
  | ok closed => cases closed <;> simp

theorem Expr.isGround_of_open {e : Expr} (h : e.isClosed = .ok false) : e.isGround = false := by
  rw [isGround, h]

theorem Expr.areClosed_singleton {e : Expr} : areClosed [e] = e.isClosed := by
  rw [areClosed]
  cases e.isClosed with
  | error => rfl
  | ok closed => cases closed <;> rfl

namespace Context

variable {c : Context} {s : Scope} {e e' : Expr} {w w' : Walk Term}
  {binders : List (String × String)} {asked : Asked}

/-- Where this is asked under these binders, the two subtrees answer alike. -/
structure Replaces (c : Context) (binders : List (String × String)) (asked : Asked)
    (e e' : Expr) : Prop where
  closed : e.isClosed = e'.isClosed
  value : c.evaluator.evaluate e = c.evaluator.evaluate e'
  negation : e.handlesNegation = e'.handlesNegation
  type : ∀ s : Scope, s.binders = binders →
    asked.type.Alike c (c.staticType? s e) (c.staticType? s e')
  null : asked.null = true → c.isProvablyNull e = c.isProvablyNull e'
  /-- Members that wait for the value of a subtree may ask for the whole of its type. -/
  term : asked.walked = true → ∀ s : Scope, s.binders = binders →
    s.pending = [] ∨ asked.type = .whole → c.term s e = c.term s e'

/-! ### Parts of nodes -/

theorem literal_congr (hvalue : c.evaluator.evaluate e = c.evaluator.evaluate e') :
    c.literal s e = c.literal s e' := by
  rw [literal, literal, boundary_eq, boundary_eq, hvalue]

theorem isClosedNull_congr (hclosed : e.isClosed = e'.isClosed)
    (hvalue : c.evaluator.evaluate e = c.evaluator.evaluate e') :
    c.isClosedNull e = c.isClosedNull e' := by
  rw [isClosedNull_eq, isClosedNull_eq, hclosed, hvalue]

theorem asCondition_congr (hnegation : e.handlesNegation = e'.handlesNegation) (hw : w = w') :
    asCondition s e w = asCondition s e' w' := by
  rw [asCondition, asCondition, hnegation, hw]

/-- Members that wait ask for the value of a closed node, and for the type of any other. -/
theorem withMembers_congr (hclosed : e.isClosed = e'.isClosed)
    (hvalue : c.evaluator.evaluate e = c.evaluator.evaluate e') (hkind : e.kind = e'.kind)
    (htype : s.pending = [] ∨ c.staticType? s e = c.staticType? s e') (hw : w = w') :
    c.withMembers s e w = c.withMembers s e' w' := by
  subst hw
  rw [withMembers, withMembers]
  cases hpending : s.pending with
  | nil => rfl
  | cons first rest =>
    have htype' : c.staticType? s e = c.staticType? s e' := htype.resolve_left (by simp [hpending])
    simp only [hclosed, hkind, htype', literal_congr hvalue]

theorem closedOr_congr (hclosed : e.isClosed = e'.isClosed)
    (hvalue : c.evaluator.evaluate e = c.evaluator.evaluate e')
    (hw : e.isClosed = .ok false → w = w') : c.closedOr s e w = c.closedOr s e' w' := by
  rw [closedOr, closedOr, ← hclosed, literal_congr hvalue]
  cases hopen : e.isClosed with
  | error => rfl
  | ok closed =>
    cases closed with
    | true => rfl
    | false => rw [hw hopen]

/-- Only next to a closed collection is an item made a term. -/
theorem inList_congr {item item' : Walk Term} (hclosed : e.isClosed = e'.isClosed)
    (hvalue : c.evaluator.evaluate e = c.evaluator.evaluate e')
    (hitem : e.isClosed = .ok true → item = item') :
    c.inList s e item = c.inList s e' item' := by
  simp only [inList, ClosedEvaluator.evaluate_standard, ← hclosed, hvalue]
  cases hground : e.isClosed with
  | error => rfl
  | ok closed =>
    cases closed with
    | false => rfl
    | true => rw [hitem hground]

/-- A closed pattern is not made a term. -/
theorem like_congr {method : Method} {anchor : Text.Anchor} {item item' : Walk Term}
    (hclosed : e.isClosed = e'.isClosed)
    (hvalue : c.evaluator.evaluate e = c.evaluator.evaluate e') (hitem : item = item')
    (hw : e.isClosed = .ok false → w = w') :
    c.like s method anchor e item w = c.like s method anchor e' item' w' := by
  simp only [like, ClosedEvaluator.evaluate_standard, ← hclosed, hvalue, hitem]
  cases hopen : e.isClosed with
  | error => rfl
  | ok closed =>
    cases closed with
    | true => rfl
    | false => rw [hw hopen]

theorem callWithArg_congr {method : Method} {target target' arg arg' : Expr}
    {walkTarget walkTarget' walkArg walkArg' : Walk Term}
    (hclosedTarget : target.isClosed = target'.isClosed)
    (hvalueTarget : c.evaluator.evaluate target = c.evaluator.evaluate target')
    (hclosedArg : arg.isClosed = arg'.isClosed)
    (hvalueArg : c.evaluator.evaluate arg = c.evaluator.evaluate arg')
    (htarget : walkTarget = walkTarget') (hitem : target.isClosed = .ok true → walkArg = walkArg')
    (hpattern : arg.isClosed = .ok false → walkArg = walkArg') :
    c.callWithArg s method target arg walkTarget walkArg =
      c.callWithArg s method target' arg' walkTarget' walkArg' := by
  rw [callWithArg, callWithArg]
  refine ite_congr rfl (fun _ => inList_congr hclosedTarget hvalueTarget hitem) fun _ => ?_
  split
  · exact like_congr hclosedArg hvalueArg htarget hpattern
  · rfl

theorem nullTest?_congr {op : Sql.Operator} {left right left' right' : Expr}
    (hleft : op.isEquality = true → c.isProvablyNull left = c.isProvablyNull left')
    (hright : op.isEquality = true → c.isProvablyNull right = c.isProvablyNull right') :
    c.nullTest? op left right = c.nullTest? op left' right' := by
  unfold nullTest?
  cases op with
  | equals => rw [hleft rfl, hright rfl]
  | notEquals => rw [hleft rfl, hright rfl]
  | _ => rfl

theorem comparison_congr {op : Sql.Operator} {left right left' right' : Expr}
    {walkLeft walkRight walkLeft' walkRight' : Walk Term}
    (hnull : op.isEquality = true → c.isProvablyNull left = c.isProvablyNull left' ∧
      c.isProvablyNull right = c.isProvablyNull right')
    (hleft : walkLeft = walkLeft') (hright : walkRight = walkRight') :
    c.comparison op left right walkLeft walkRight =
      c.comparison op left' right' walkLeft' walkRight' := by
  rw [comparison, comparison, hleft, hright,
    nullTest?_congr (fun h => (hnull h).1) fun h => (hnull h).2]

theorem arithmetic_congr {op : BinaryOp} {operator : Sql.Operator} {left right left' right' : Expr}
    {walkLeft walkRight walkLeft' walkRight' : Walk Term}
    (hsum : op = .add →
      (c.staticType? s left = some .string ∨ c.staticType? s right = some .string ↔
        c.staticType? s left' = some .string ∨ c.staticType? s right' = some .string))
    (hleft : walkLeft = walkLeft') (hright : walkRight = walkRight') :
    c.arithmetic s op operator left right walkLeft walkRight =
      c.arithmetic s op operator left' right' walkLeft' walkRight' := by
  rw [arithmetic, arithmetic, hleft, hright]
  simp only [and_congr_right_iff.2 hsum]

/-! ### Closed subtrees -/

/-- A subtree as a literal, unless it cannot be told whether the subtree is closed. -/
def closedLiteral (c : Context) (s : Scope) (e : Expr) : Except QueryError Term := do
  let _ ← e.isClosed
  c.literal s e

theorem closedLiteral_of_closed (hclosed : e.isClosed = .ok true) :
    c.closedLiteral s e = c.literal s e := by
  rw [closedLiteral, hclosed, ok_bind]

theorem closedLiteral_member {owner : Expr} {type name : String} :
    c.closedLiteral s (.member owner type name) = c.closedLiteral (s.withMember name) owner := by
  rw [closedLiteral, closedLiteral, literal, literal, boundary_member]
  rfl

theorem closedLiteral_convert {operand : Expr} :
    c.closedLiteral s (.unary .convert operand) = c.closedLiteral s operand := by
  rw [closedLiteral, closedLiteral, literal, literal, boundary_convert]
  rfl

theorem withMembers_of_not_open (hopen : e.isClosed ≠ .ok false) (hpending : s.pending ≠ []) :
    c.withMembers s e w = liftM (c.closedLiteral s e) := by
  rw [withMembers, closedLiteral]
  cases hmembers : s.pending with
  | nil => exact absurd hmembers hpending
  | cons =>
    rcases hclosed : e.isClosed with err | _ | _
    · rfl
    · exact absurd hclosed hopen
    · rfl

/-- With members waiting for its value, a subtree that is not open is a literal, whatever node it
is. -/
theorem term_of_not_open : ∀ (e : Expr) (s : Scope), e.isClosed ≠ .ok false → s.pending ≠ [] →
    c.term s e = liftM (c.closedLiteral s e)
  | .member owner type name, s, hopen, _ => by
    rw [closedLiteral_member]
    exact term_of_not_open owner (s.withMember name) hopen (List.cons_ne_nil _ _)
  | .unary .convert operand, s, hopen, hpending => by
    rw [closedLiteral_convert]
    exact term_of_not_open operand s hopen hpending
  | .staticMember .., _, _, _ | .constant .., _, _, _ => rfl
  | .param .., _, hopen, _ => absurd rfl hopen
  | .lambda .., _, hopen, hpending
  | .binary .., _, hopen, hpending | .unary .not _, _, hopen, hpending
  | .unary .negate _, _, hopen, hpending | .call _ _ [], _, hopen, hpending
  | .call _ _ [_], _, hopen, hpending | .call _ _ (_ :: _ :: _), _, hopen, hpending
  | .staticCall _ [], _, hopen, hpending | .staticCall _ [_], _, hopen, hpending
  | .staticCall _ [_, _], _, hopen, hpending
  | .staticCall _ (_ :: _ :: _ :: _), _, hopen, hpending
  | .new .., _, hopen, hpending | .array .., _, hopen, hpending
  | .conditional .., _, hopen, hpending => withMembers_of_not_open hopen hpending

theorem term_of_closed (e : Expr) (s : Scope) (hclosed : e.isClosed = .ok true)
    (hpending : s.pending ≠ []) : c.term s e = liftM (c.literal s e) := by
  rw [term_of_not_open e s (by simp [hclosed]) hpending, closedLiteral_of_closed hclosed]

/-! ### Rules -/

namespace Replaces

theorem refl : c.Replaces binders asked e e :=
  ⟨rfl, rfl, rfl, fun _ _ => TypeQuestion.alike_of_eq rfl, fun _ => rfl, fun _ _ _ _ => rfl⟩

theorem symm (h : c.Replaces binders asked e e') : c.Replaces binders asked e' e where
  closed := h.closed.symm
  value := h.value.symm
  negation := h.negation.symm
  type s hs := TypeQuestion.Alike.symm (h.type s hs)
  null hnull := (h.null hnull).symm
  term hwalked s hs hpending := (h.term hwalked s hs hpending).symm

theorem trans {e'' : Expr} (h : c.Replaces binders asked e e')
    (h' : c.Replaces binders asked e' e'') : c.Replaces binders asked e e'' where
  closed := h.closed.trans h'.closed
  value := h.value.trans h'.value
  negation := h.negation.trans h'.negation
  type s hs := TypeQuestion.Alike.trans (h.type s hs) (h'.type s hs)
  null hnull := (h.null hnull).trans (h'.null hnull)
  term hwalked s hs hpending := (h.term hwalked s hs hpending).trans (h'.term hwalked s hs hpending)

/-- Where members wait, the whole of the type is the same. -/
theorem type_of_pending (h : asked.type.Alike c (c.staticType? s e) (c.staticType? s e'))
    (hpending : s.pending = [] ∨ asked.type = .whole) :
    s.pending = [] ∨ c.staticType? s e = c.staticType? s e' := by
  refine hpending.imp_right fun hwhole => ?_
  rwa [hwhole] at h

/-- A cast is no more than its operand. -/
theorem convert_self : c.Replaces binders asked (.unary .convert e) e where
  closed := rfl
  value := by
    rw [Evaluator.evaluate]
    cases c.evaluator.evaluate e <;> rfl
  negation := rfl
  type _ _ := TypeQuestion.alike_of_eq rfl
  null _ := rfl
  term _ _ _ _ := rfl

theorem convert (h : c.Replaces binders asked e e') :
    c.Replaces binders asked (.unary .convert e) (.unary .convert e') :=
  convert_self.trans (h.trans convert_self.symm)

/-- Nothing but the term of the operand of `!` is asked for. -/
theorem not (h : c.Replaces binders { walked := asked.walked } e e') :
    c.Replaces binders asked (.unary .not e) (.unary .not e') := by
  have hclosed : (Expr.unary .not e).isClosed = (Expr.unary .not e').isClosed := h.closed
  have hvalue : c.evaluator.evaluate (.unary .not e) = c.evaluator.evaluate (.unary .not e') := by
    rw [Evaluator.evaluate, Evaluator.evaluate, h.value]
  refine ⟨hclosed, hvalue, rfl, fun _ _ => TypeQuestion.alike_of_eq rfl,
    fun _ => isClosedNull_congr hclosed hvalue, fun hwalked s hs _ => ?_⟩
  exact withMembers_congr hclosed hvalue rfl (.inr rfl)
    (asCondition_congr h.negation (h.term hwalked _ hs (.inl rfl)))

theorem negate (h : c.Replaces binders { walked := asked.walked } e e') :
    c.Replaces binders asked (.unary .negate e) (.unary .negate e') := by
  have hclosed : (Expr.unary .negate e).isClosed = (Expr.unary .negate e').isClosed := h.closed
  have hvalue :
      c.evaluator.evaluate (.unary .negate e) = c.evaluator.evaluate (.unary .negate e') := by
    rw [Evaluator.evaluate, Evaluator.evaluate, h.value]
  refine ⟨hclosed, hvalue, rfl, fun _ _ => TypeQuestion.alike_of_eq rfl,
    fun _ => isClosedNull_congr hclosed hvalue, fun hwalked s hs _ => ?_⟩
  exact withMembers_congr hclosed hvalue rfl (.inr rfl)
    (congrArg (· >>= _) (h.term hwalked _ hs (.inl rfl)))

end Replaces

end Context

/-- The owner of a member. If it is closed, only its value matters, and its type where the type of
the member does; the type of any other matters to the members that wait for its value. -/
def Asked.owner (asked : Asked) (name : String) (closed : Bool) : Asked where
  walked := asked.walked && !closed
  type :=
    if !closed then .whole
    else if asked.type = .nothing then .nothing
    else .ofMember name asked.type
  null := asked.null

namespace Context

variable {c : Context} {binders : List (String × String)} {asked : Asked} {e e' : Expr}

namespace Replaces

theorem member {name type type' : String}
    (h : c.Replaces binders (asked.owner name e.isGround) e e') :
    c.Replaces binders asked (.member e type name) (.member e' type' name) := by
  have hclosed : (Expr.member e type name).isClosed = (Expr.member e' type' name).isClosed :=
    h.closed
  have hvalue : c.evaluator.evaluate (.member e type name) =
      c.evaluator.evaluate (.member e' type' name) := by
    rw [Evaluator.evaluate, Evaluator.evaluate, h.value]
  refine ⟨hclosed, hvalue, rfl, fun s hs => ?_, fun hnull => ?_, fun hwalked s hs _ => ?_⟩
  · have howner := h.type s hs
    rw [staticType?_member, staticType?_member]
    cases hground : e.isGround with
    | false =>
      simp only [Asked.owner, hground, Bool.not_false, if_true] at howner
      exact TypeQuestion.alike_of_eq (congrArg (c.memberType? name) howner)
    | true =>
      by_cases hnothing : asked.type = .nothing
      · rw [hnothing]
        trivial
      · simp only [Asked.owner, hground, Bool.not_true, Bool.false_eq_true, if_false,
          if_neg hnothing] at howner
        exact howner
  · rw [isProvablyNull, isProvablyNull, h.null hnull, isClosedNull_congr hclosed hvalue]
  · show c.term (s.withMember name) e = c.term (s.withMember name) e'
    cases hground : e.isGround with
    | true =>
      -- Both owners are closed, and the members are taken of one value.
      have hground := Expr.isGround_iff.1 hground
      have hne : (s.withMember name).pending ≠ [] := List.cons_ne_nil _ _
      rw [term_of_closed e _ hground hne, term_of_closed e' _ (h.closed ▸ hground) hne,
        literal_congr h.value]
    | false =>
      have hwalked' : (asked.owner name e.isGround).walked = true := by
        simp [Asked.owner, hwalked, hground]
      exact h.term hwalked' _ hs (.inr (by simp [Asked.owner, hground]))

/-- What operators ask of their operands. The type of an operand of a sum matters if the other one is
no string, and whether an operand is `null` if they are compared for equality. An element of
something `null` is `null`. -/
theorem binary {op : BinaryOp} {left right left' right' : Expr} {askedLeft askedRight : Asked}
    (hleft : c.Replaces binders askedLeft left left')
    (hright : c.Replaces binders askedRight right right')
    (hwalked : asked.walked = true → op ≠ .index →
      askedLeft.walked = true ∧ askedRight.walked = true)
    (hsum : op = .add → asked.walked = true ∨ asked.type ≠ .nothing →
      ∀ s : Scope, s.binders = binders →
        (c.staticType? s left = some .string ∨ c.staticType? s right = some .string ↔
          c.staticType? s left' = some .string ∨ c.staticType? s right' = some .string))
    (hequality : op = .equal ∨ op = .notEqual → asked.walked = true →
      c.isProvablyNull left = c.isProvablyNull left' ∧
        c.isProvablyNull right = c.isProvablyNull right')
    (hindex : op = .index → asked.null = true → c.isProvablyNull left = c.isProvablyNull left') :
    c.Replaces binders asked (.binary op left right) (.binary op left' right') := by
  have hclosed : (Expr.binary op left right).isClosed = (Expr.binary op left' right').isClosed := by
    rw [Expr.isClosed, Expr.isClosed, hleft.closed, hright.closed]
  have hvalue : c.evaluator.evaluate (.binary op left right) =
      c.evaluator.evaluate (.binary op left' right') := by
    cases op <;> simp only [Evaluator.evaluate, hleft.value, hright.value]
  have htype : ∀ s : Scope, s.binders = binders →
      asked.type.Alike c (c.staticType? s (.binary op left right))
        (c.staticType? s (.binary op left' right')) := by
    intro s hs
    by_cases hnothing : asked.type = .nothing
    · rw [hnothing]
      trivial
    · refine TypeQuestion.alike_of_eq ?_
      cases op with
      | add => simp only [staticType?, hsum rfl (.inr hnothing) s hs]
      | _ => rfl
  refine ⟨hclosed, hvalue, rfl, htype, fun hnull => ?_, fun hterm s hs hpending => ?_⟩
  · cases op with
    | index =>
      rw [isProvablyNull, isProvablyNull, hindex rfl hnull, isClosedNull_congr hclosed hvalue]
    | _ => exact isClosedNull_congr hclosed hvalue
  · refine withMembers_congr hclosed hvalue rfl (type_of_pending (htype s hs) hpending) ?_
    cases hop : Sql.Operator.ofBinary? op with
    | none => exact closedOr_congr hclosed hvalue fun _ => rfl
    | some operator =>
      have hne : op ≠ .index := by
        rintro rfl
        cases hop
      obtain ⟨hwalkLeft, hwalkRight⟩ := hwalked hterm hne
      have hleft' : ∀ s' : Scope, s'.binders = binders → s'.pending = [] →
          c.term s' left = c.term s' left' :=
        fun s' hs' hp => hleft.term hwalkLeft s' hs' (.inl hp)
      have hright' : ∀ s' : Scope, s'.binders = binders → s'.pending = [] →
          c.term s' right = c.term s' right' :=
        fun s' hs' hp => hright.term hwalkRight s' hs' (.inl hp)
      dsimp only
      refine ite_congr rfl (fun _ => ?_) fun _ => ite_congr rfl (fun _ => ?_) fun _ => ?_
      · rw [asCondition_congr hleft.negation (hleft' s.isolated hs rfl),
          asCondition_congr hright.negation (hright' s.isolated hs rfl)]
      · refine comparison_congr (fun hequal => hequality ?_ hterm)
          (hleft' s.isolated.neutral hs rfl) (hright' s.isolated.neutral hs rfl)
        revert hequal
        cases s.negated <;> cases op <;> cases hop <;> simp [Sql.Operator.invertIf,
          Sql.Operator.isEquality, Sql.Operator.invert]
      · exact arithmetic_congr (fun hadd => hsum hadd (.inl hterm) s hs)
          (hleft' s.isolated.neutral hs rfl) (hright' s.isolated.neutral hs rfl)

/-- The arguments of a call and the elements of an array: as many of them, each replaced. A closed
argument is not made a term. -/
def Arguments (c : Context) (binders : List (String × String)) (asked : Asked) :
    List Expr → List Expr → Prop :=
  List.Forall₂ fun arg arg' =>
    c.Replaces binders { walked := asked.walked && !arg.isGround } arg arg'

theorem Arguments.closed {args args' : List Expr} (h : Arguments c binders asked args args') :
    Expr.areClosed args = Expr.areClosed args' := by
  induction h with
  | nil => rfl
  | cons harg _ ih => rw [Expr.areClosed, Expr.areClosed, harg.closed, ih]

theorem Arguments.value {args args' : List Expr} (h : Arguments c binders asked args args') :
    c.evaluator.evaluateAll args = c.evaluator.evaluateAll args' := by
  induction h with
  | nil => rfl
  | cons harg _ ih => rw [Evaluator.evaluateAll, Evaluator.evaluateAll, harg.value, ih]

/-- Only the values of the elements of an array matter. -/
theorem array {type type' : ValueType} {items items' : List Expr}
    (h : Arguments c binders {} items items') :
    c.Replaces binders asked (.array type items) (.array type' items') := by
  have hclosed : (Expr.array type items).isClosed = (Expr.array type' items').isClosed := h.closed
  have hvalue : c.evaluator.evaluate (.array type items) =
      c.evaluator.evaluate (.array type' items') := by
    rw [Evaluator.evaluate, Evaluator.evaluate, h.value]
  exact ⟨hclosed, hvalue, rfl, fun _ _ => TypeQuestion.alike_of_eq rfl,
    fun _ => isClosedNull_congr hclosed hvalue, fun _ _ _ _ =>
    withMembers_congr hclosed hvalue rfl (.inr rfl) (closedOr_congr hclosed hvalue fun _ => rfl)⟩

/-- Only the values of the arguments of a constructor matter. -/
theorem new {type : String} {args args' : List Expr} (h : Arguments c binders {} args args') :
    c.Replaces binders asked (.new type args) (.new type args') := by
  have hclosed : (Expr.new type args).isClosed = (Expr.new type args').isClosed := h.closed
  have hvalue : c.evaluator.evaluate (.new type args) =
      c.evaluator.evaluate (.new type args') := by
    rw [Evaluator.evaluate, Evaluator.evaluate, h.value]
  exact ⟨hclosed, hvalue, rfl, fun _ _ => TypeQuestion.alike_of_eq rfl,
    fun _ => isClosedNull_congr hclosed hvalue, fun _ _ _ _ =>
    withMembers_congr hclosed hvalue rfl (.inr rfl) (closedOr_congr hclosed hvalue fun _ => rfl)⟩

/-- Arguments in the place of a term. -/
theorem term_of_open (h : c.Replaces binders { walked := asked.walked && !e.isGround } e e')
    (hwalked : asked.walked = true) (hopen : e.isClosed = .ok false) {s : Scope}
    (hs : s.binders = binders) (hpending : s.pending = []) : c.term s e = c.term s e' :=
  h.term (by simp [hwalked, Expr.isGround_of_open hopen]) s hs (.inl hpending)

theorem staticCall {method : Method} {args args' : List Expr}
    (h : Arguments c binders asked args args') :
    c.Replaces binders asked (.staticCall method args) (.staticCall method args') := by
  have hclosed : (Expr.staticCall method args).isClosed = (Expr.staticCall method args').isClosed :=
    h.closed
  have hvalue : c.evaluator.evaluate (.staticCall method args) =
      c.evaluator.evaluate (.staticCall method args') := by
    rw [Evaluator.evaluate, Evaluator.evaluate, h.value]
  have hnegation : (Expr.staticCall method args).handlesNegation =
      (Expr.staticCall method args').handlesNegation := by
    rw [Expr.handlesNegation, Expr.handlesNegation, hclosed]
  refine ⟨hclosed, hvalue, hnegation, fun _ _ => TypeQuestion.alike_of_eq rfl,
    fun _ => isClosedNull_congr hclosed hvalue, fun hwalked s hs _ => ?_⟩
  -- Two arguments are a collection and an item, and nothing else has a term.
  cases h with
  | nil => rfl
  | cons hfirst hrest =>
    cases hrest with
    | nil =>
      exact withMembers_congr hclosed hvalue rfl (.inr rfl)
        (closedOr_congr hclosed hvalue fun _ => rfl)
    | cons hsecond hrest =>
      cases hrest with
      | cons =>
        exact withMembers_congr hclosed hvalue rfl (.inr rfl)
          (closedOr_congr hclosed hvalue fun _ => rfl)
      | nil =>
        refine withMembers_congr hclosed hvalue rfl (.inr rfl)
          (closedOr_congr hclosed hvalue fun hopen => ite_congr rfl (fun _ => ?_) fun _ => rfl)
        refine inList_congr hfirst.closed hfirst.value fun hground => ?_
        refine term_of_open hsecond hwalked ?_ hs rfl
        rwa [Expr.isClosed, Expr.areClosed, hground, ok_bind, if_pos rfl, Expr.areClosed_singleton]
          at hopen

theorem call {method : Method} {target target' : Expr} {args args' : List Expr}
    (htarget : c.Replaces binders
      { walked := asked.walked && !(Expr.call target method args).isGround } target target')
    (hargs : Arguments c binders asked args args') :
    c.Replaces binders asked (.call target method args) (.call target' method args') := by
  have hclosed : (Expr.call target method args).isClosed =
      (Expr.call target' method args').isClosed := by
    rw [Expr.isClosed, Expr.isClosed, htarget.closed, hargs.closed]
  have hvalue : c.evaluator.evaluate (.call target method args) =
      c.evaluator.evaluate (.call target' method args') := by
    rw [Evaluator.evaluate, Evaluator.evaluate, htarget.value, hargs.value]
  have hnegation : (Expr.call target method args).handlesNegation =
      (Expr.call target' method args').handlesNegation := by
    rw [Expr.handlesNegation, Expr.handlesNegation, hclosed]
  refine ⟨hclosed, hvalue, hnegation, fun _ _ => TypeQuestion.alike_of_eq rfl,
    fun _ => isClosedNull_congr hclosed hvalue, fun hwalked s hs _ => ?_⟩
  have hterm : (Expr.call target method args).isClosed = .ok false → ∀ s : Scope,
      s.binders = binders → s.pending = [] → c.term s target = c.term s target' :=
    fun hopen s hs hpending =>
      htarget.term (by simp [hwalked, Expr.isGround_of_open hopen]) s hs (.inl hpending)
  cases hargs with
  | nil =>
    refine withMembers_congr hclosed hvalue rfl (.inr rfl)
      (closedOr_congr hclosed hvalue fun hopen => ?_)
    rw [hterm hopen s.isolated.neutral hs rfl]
  | @cons arg arg' rest rest' harg hrest =>
    cases hrest with
    | cons =>
      exact withMembers_congr hclosed hvalue rfl (.inr rfl)
        (closedOr_congr hclosed hvalue fun _ => rfl)
    | nil =>
      refine withMembers_congr hclosed hvalue rfl (.inr rfl)
        (closedOr_congr hclosed hvalue fun hopen => ?_)
      refine callWithArg_congr htarget.closed htarget.value harg.closed harg.value
        (hterm hopen s.isolated.neutral hs rfl) (fun hground => ?_) fun harg' => ?_
      · -- The call is open, and its target is not, so its argument is.
        refine term_of_open harg hwalked ?_ hs rfl
        rwa [Expr.isClosed, hground, ok_bind, if_pos rfl, Expr.areClosed_singleton] at hopen
      · exact term_of_open harg hwalked harg' hs rfl

theorem conditional {test test' ifTrue ifTrue' ifFalse ifFalse' : Expr}
    (htest : c.Replaces binders { walked := asked.walked } test test')
    (hTrue : c.Replaces binders { walked := asked.walked, type := asked.type } ifTrue ifTrue')
    (hFalse : c.Replaces binders { walked := asked.walked } ifFalse ifFalse') :
    c.Replaces binders asked (.conditional test ifTrue ifFalse)
      (.conditional test' ifTrue' ifFalse') := by
  have hclosed : (Expr.conditional test ifTrue ifFalse).isClosed =
      (Expr.conditional test' ifTrue' ifFalse').isClosed := by
    rw [Expr.isClosed, Expr.isClosed, htest.closed, hTrue.closed, hFalse.closed]
  have hvalue : c.evaluator.evaluate (.conditional test ifTrue ifFalse) =
      c.evaluator.evaluate (.conditional test' ifTrue' ifFalse') := by
    rw [Evaluator.evaluate, Evaluator.evaluate, htest.value, hTrue.value, hFalse.value]
  refine ⟨hclosed, hvalue, rfl, hTrue.type, fun _ => isClosedNull_congr hclosed hvalue,
    fun hwalked s hs hpending => ?_⟩
  refine withMembers_congr hclosed hvalue rfl (type_of_pending (hTrue.type s hs) hpending) ?_
  rw [asCondition_congr htest.negation (htest.term hwalked s.isolated.neutral hs (.inl rfl)),
    asCondition_congr hTrue.negation (hTrue.term hwalked s.isolated hs (.inl rfl)),
    asCondition_congr hFalse.negation (hFalse.term hwalked s.isolated hs (.inl rfl))]

/-- A body is asked for its term only, under one binder more. -/
theorem lambda {params : List Param} {body body' : Expr}
    (h : ∀ p, params = [p] →
      c.Replaces ((p.name, p.model) :: binders) { walked := asked.walked } body body') :
    c.Replaces binders asked (.lambda params body) (.lambda params body') := by
  refine ⟨rfl, rfl, rfl, fun _ _ => TypeQuestion.alike_of_eq rfl, fun _ => rfl,
    fun hwalked s hs _ => withMembers_congr rfl rfl rfl (.inr rfl) ?_⟩
  cases params with
  | nil => rfl
  | cons p rest =>
    cases rest with
    | cons => rfl
    | nil =>
      have hbody := h p rfl
      exact asCondition_congr hbody.negation
        (hbody.term hwalked { s.isolated with binders := (p.name, p.model) :: s.binders }
          (by rw [← hs]) (.inl rfl))

end Replaces

/-! ### Filters and keys -/

/-- Nothing is negated around a key, so it is walked like a filter. -/
theorem keyTerm_eq_term {key : Expr} : c.keyTerm key = c.term {} key := by
  unfold keyTerm
  split
  · rename_i params body
    cases params with
    | nil => rfl
    | cons p rest =>
      cases rest with
      | cons => rfl
      | nil => exact (bind_pure _).symm
  · rfl

theorem Replaces.keyTerm (h : c.Replaces [] { walked := true } e e') :
    c.keyTerm e = c.keyTerm e' := by
  rw [keyTerm_eq_term, keyTerm_eq_term, h.term rfl {} rfl (.inl rfl)]

end Context

theorem Compiler.filter_congr {c : Compiler} {e e' : Expr}
    (h : c.context.Replaces [] { walked := true } e e') :
    c.filter (some e) = c.filter (some e') := by
  rw [filter, filter, h.term rfl {} rfl (.inl rfl)]

end PredicateSql
