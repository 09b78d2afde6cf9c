import PredicateSql.Proofs.Query.Replacement

/-!
# Places in an expression

A place is what is left of an expression when one of its subtrees is cut out. Whether another
subtree may stand there instead depends on what the nodes around it ask.

* `Frame`: a node with one subtree cut out; `Place`: the nodes around a place, from the outside.
* `Place.asks`: what a place asks of the subtree in it, by what each frame asks (`Frame.asks`).
* `Context.replaces_fill`: subtrees that answer alike are interchangeable.
* `Compiler.build_evaluated`: a closed subtree that is evaluated as a whole may be evaluated before
  the query is built, unless its place asks for more than the value knows.
-/

namespace PredicateSql

open Sql (Term)

/-! ### Frames -/

/-- A node with one subtree cut out. -/
inductive Frame where
  | leftOf (op : BinaryOp) (right : Expr)
  | rightOf (op : BinaryOp) (left : Expr)
  | operandOf (op : UnaryOp)
  | ownerOf (declaringType name : String)
  | targetOf (method : Method) (args : List Expr)
  | argOf (target : Expr) (method : Method) (before after : List Expr)
  | staticArgOf (method : Method) (before after : List Expr)
  | newArgOf (type : String) (before after : List Expr)
  | itemOf (elementType : ValueType) (before after : List Expr)
  | testOf (ifTrue ifFalse : Expr)
  | ifTrueOf (test ifFalse : Expr)
  | ifFalseOf (test ifTrue : Expr)
  | bodyOf (params : List Param)
  deriving Repr, Inhabited

/-- The node with a subtree where one was cut out. -/
def Frame.fill : Frame → Expr → Expr
  | .leftOf op right, e => .binary op e right
  | .rightOf op left, e => .binary op left e
  | .operandOf op, e => .unary op e
  | .ownerOf type name, e => .member e type name
  | .targetOf method args, e => .call e method args
  | .argOf target method before after, e => .call target method (before ++ e :: after)
  | .staticArgOf method before after, e => .staticCall method (before ++ e :: after)
  | .newArgOf type before after, e => .new type (before ++ e :: after)
  | .itemOf type before after, e => .array type (before ++ e :: after)
  | .testOf ifTrue ifFalse, e => .conditional e ifTrue ifFalse
  | .ifTrueOf test ifFalse, e => .conditional test e ifFalse
  | .ifFalseOf test ifTrue, e => .conditional test ifTrue e
  | .bodyOf params, e => .lambda params e

/-- The nodes around a place, the outermost first. -/
abbrev Place := List Frame

/-- The expression with a subtree in a place. -/
def Place.fill (place : Place) (e : Expr) : Expr :=
  place.foldr Frame.fill e

/-! ### What a place asks -/

/-- An operand of an operator. Next to a string, a sum is a concatenation anyway. -/
def Asked.operand (asked : Asked) (op : BinaryOp) (first : Bool) (other : Option ValueType) :
    Asked where
  walked := asked.walked && op != .index
  type :=
    if op = .add ∧ (asked.walked = true ∨ asked.type ≠ .nothing) ∧ other ≠ some .string then
      .isString
    else .nothing
  null :=
    (op == .equal || op == .notEqual) && asked.walked || op == .index && first && asked.null

namespace Frame

/-- The parameters that are bound where the subtree was cut out. -/
def binders (frame : Frame) (binders : List (String × String)) : List (String × String) :=
  match frame with
  | .bodyOf [p] => (p.name, p.model) :: binders
  | _ => binders

/-- What a node asks of a subtree `e` where one was cut out. -/
def asks (c : Context) (frame : Frame) (e : Expr) (binders : List (String × String))
    (asked : Asked) : Asked :=
  match frame with
  | .leftOf op right => asked.operand op true (c.staticType? { binders } right)
  | .rightOf op left => asked.operand op false (c.staticType? { binders } left)
  | .operandOf .convert => asked
  | .operandOf _ | .testOf .. | .ifFalseOf .. | .bodyOf _ => { walked := asked.walked }
  | .ownerOf _ name => asked.owner name e.isGround
  | .targetOf method args => { walked := asked.walked && !(Expr.call e method args).isGround }
  | .argOf .. | .staticArgOf .. => { walked := asked.walked && !e.isGround }
  | .newArgOf .. | .itemOf .. => {}
  | .ifTrueOf .. => { walked := asked.walked, type := asked.type }

end Frame

/-- The parameters that are bound in a place. -/
def Place.binders (place : Place) (binders : List (String × String)) : List (String × String) :=
  place.foldl (fun binders frame => frame.binders binders) binders

/-- What a place asks of a subtree `e` in it. -/
def Place.asks (c : Context) (e : Expr) : Place → List (String × String) → Asked → Asked
  | [], _, asked => asked
  | frame :: rest, binders, asked =>
    Place.asks c e rest (frame.binders binders) (frame.asks c (Place.fill rest e) binders asked)

namespace Context

variable {c : Context} {binders : List (String × String)} {asked : Asked} {e e' : Expr}

namespace Replaces

theorem arguments_refl (args : List Expr) : Arguments c binders asked args args := by
  induction args with
  | nil => exact .nil
  | cons a rest ih => exact .cons refl ih

theorem arguments_append (before after : List Expr)
    (h : c.Replaces binders { walked := asked.walked && !e.isGround } e e') :
    Arguments c binders asked (before ++ e :: after) (before ++ e' :: after) :=
  List.rel_append (arguments_refl before) (.cons h (arguments_refl after))

theorem left {op : BinaryOp} {right : Expr}
    (h : c.Replaces binders (asked.operand op true (c.staticType? { binders } right)) e e') :
    c.Replaces binders asked (.binary op e right) (.binary op e' right) := by
  have hright : c.Replaces binders { walked := true } right right := refl
  refine binary h hright (fun hwalked hop => ?_)
    (fun hadd hasked s hs => ?_) (fun hop hwalked => ?_) fun hop hnull => ?_
  · simp [Asked.operand, hwalked, hop]
  · subst hadd
    rw [staticType?_of_binders hs right]
    by_cases hstring : c.staticType? { binders } right = some .string
    · simp only [hstring, or_true]
    · have htype := h.type s hs
      rw [Asked.operand, if_pos ⟨rfl, hasked, hstring⟩] at htype
      exact or_congr_left htype
  · refine ⟨h.null ?_, rfl⟩
    rcases hop with rfl | rfl <;> simp [Asked.operand, hwalked]
  · exact h.null (by simp [Asked.operand, hop, hnull])

theorem right {op : BinaryOp} {left : Expr}
    (h : c.Replaces binders (asked.operand op false (c.staticType? { binders } left)) e e') :
    c.Replaces binders asked (.binary op left e) (.binary op left e') := by
  have hleft : c.Replaces binders { walked := true } left left := refl
  refine binary hleft h (fun hwalked hop => ?_)
    (fun hadd hasked s hs => ?_) (fun hop hwalked => ?_) fun _ _ => rfl
  · simp [Asked.operand, hwalked, hop]
  · subst hadd
    rw [staticType?_of_binders hs left]
    by_cases hstring : c.staticType? { binders } left = some .string
    · simp only [hstring, true_or]
    · have htype := h.type s hs
      rw [Asked.operand, if_pos ⟨rfl, hasked, hstring⟩] at htype
      exact or_congr_right htype
  · refine ⟨rfl, h.null ?_⟩
    rcases hop with rfl | rfl <;> simp [Asked.operand, hwalked]

/-- Subtrees that answer alike to what a node asks are interchangeable there. -/
theorem frame {frame : Frame}
    (h : c.Replaces (frame.binders binders) (frame.asks c e binders asked) e e') :
    c.Replaces binders asked (frame.fill e) (frame.fill e') := by
  cases frame with
  | leftOf op right => exact left h
  | rightOf op left => exact right h
  | operandOf op =>
    cases op with
    | not => exact not h
    | negate => exact negate h
    | convert => exact convert h
  | ownerOf type name => exact member h
  | targetOf method args => exact call h (arguments_refl args)
  | argOf target method before after => exact call refl (arguments_append before after h)
  | staticArgOf method before after => exact staticCall (arguments_append before after h)
  | newArgOf type before after => exact new (arguments_append before after h)
  | itemOf type before after => exact array (arguments_append before after h)
  | testOf ifTrue ifFalse => exact conditional h refl refl
  | ifTrueOf test ifFalse => exact conditional refl h refl
  | ifFalseOf test ifTrue => exact conditional refl refl h
  | bodyOf params =>
    refine lambda fun p hp => ?_
    subst hp
    exact h

end Replaces

/-- Subtrees that answer alike to what a place asks are interchangeable there. -/
theorem replaces_fill {place : Place}
    (h : c.Replaces (place.binders binders) (place.asks c e binders asked) e e') :
    c.Replaces binders asked (place.fill e) (place.fill e') := by
  induction place generalizing binders asked with
  | nil => exact h
  | cons frame rest ih => exact .frame (ih h)

end Context

/-! ### Values in the place of closed subtrees -/

/-- A closed subtree of this kind is evaluated as a whole, and becomes a literal. -/
def Expr.isWhole : Expr → Bool
  | .staticMember .. | .member .. | .call .. | .staticCall .. | .binary .index .. | .new ..
  | .array .. => true
  | _ => false

namespace Context

variable {c : Context} {binders : List (String × String)} {asked : Asked} {e : Expr} {v : Value}

/-- The expression evaluates to `null`. -/
def evaluatesToNull (c : Context) (e : Expr) : Bool :=
  match c.evaluator.evaluate e with
  | .ok v => v.isNull
  | .error _ => false

/-- In a chain of members and elements, something `null` is asked whether it has a value. It has
none, so the answer is not `null`. -/
def asksNull (c : Context) : Expr → Bool
  | .member owner _ name => name = "HasValue" && c.evaluatesToNull owner || c.asksNull owner
  | .binary .index sequence _ => c.asksNull sequence
  | .unary .convert operand => c.asksNull operand
  | _ => false

theorem closedOr_of_not_open {s : Scope} {w : Walk Term} (hopen : e.isClosed ≠ .ok false) :
    c.closedOr s e w = liftM (c.closedLiteral s.isolated e) := by
  rw [closedOr, closedLiteral]
  rcases hclosed : e.isClosed with err | _ | _
  · rfl
  · exact absurd hclosed hopen
  · rfl

/-- Without members that wait for its value, a subtree that is evaluated as a whole is a literal
unless it is open; with such members, every subtree is. -/
theorem term_of_isWhole {s : Scope} (hwhole : e.isWhole = true) (hopen : e.isClosed ≠ .ok false) :
    c.term s e = liftM (c.closedLiteral s e) := by
  by_cases hpending : s.pending = []
  · have hisolated : s.isolated = s := by rw [Scope.isolated, ← hpending]
    have hclosedOr : ∀ w, c.withMembers s e (c.closedOr s e w) = liftM (c.closedLiteral s e) := by
      intro w
      rw [withMembers, hpending, closedOr_of_not_open hopen, hisolated]
    cases e with
    | staticMember => rfl
    | member owner type name =>
      rw [term, closedLiteral_member]
      exact term_of_not_open owner _ hopen (List.cons_ne_nil _ _)
    | call target method args =>
      rcases args with _ | ⟨a, _ | ⟨b, rest⟩⟩ <;> exact hclosedOr _
    | staticCall method args =>
      rcases args with _ | ⟨a, _ | ⟨b, _ | ⟨d, rest⟩⟩⟩ <;> exact hclosedOr _
    | binary op left right =>
      cases op with
      | index => exact hclosedOr _
      | _ => cases hwhole
    | new => exact hclosedOr _
    | array => exact hclosedOr _
    | constant | param | unary | conditional | lambda => cases hwhole
  · exact term_of_not_open e s hopen hpending

theorem isClosedNull_of_closed (hclosed : e.isClosed = .ok true)
    (hvalue : c.evaluator.evaluate e = .ok v) : c.isClosedNull e = .ok v.isNull := by
  rw [isClosedNull_eq, hclosed, hvalue]
  rfl

/-- What is taken of `null` is `null`, or else is no value; anything else is evaluated. -/
theorem isProvablyNull_of_closed (hclosed : e.isClosed = .ok true)
    (hvalue : c.evaluator.evaluate e = .ok v) (hasks : c.asksNull e = false) :
    c.isProvablyNull e = .ok v.isNull := by
  have hnull := isClosedNull_of_closed hclosed hvalue
  induction e using isProvablyNull.induct generalizing v with
  | case1 type value =>
    obtain rfl := Except.ok.inj hvalue
    rfl
  | case2 owner type name ih =>
    rw [asksNull, Bool.or_eq_false_iff] at hasks
    rw [Evaluator.evaluate] at hvalue
    obtain ⟨o, ho, hmember⟩ := bind_eq_ok.1 hvalue
    rw [isProvablyNull, ih hclosed ho hasks.2 (isClosedNull_of_closed hclosed ho)]
    cases o with
    | null =>
      have hname : name ≠ "HasValue" := by simpa [evaluatesToNull, ho, Value.isNull] using hasks.1
      simp only [Evaluator.memberOf, Value.member?, if_neg hname] at hmember
      obtain rfl := Except.ok.inj hmember
      rfl
    | _ => exact hnull
  | case3 sequence index ih =>
    have hsequence : sequence.isClosed = .ok true := by
      rw [Expr.isClosed] at hclosed
      obtain ⟨closed, h, hclosed⟩ := bind_eq_ok.1 hclosed
      cases closed with
      | true => exact h
      | false => cases hclosed
    rw [Evaluator.evaluate] at hvalue
    · obtain ⟨o, ho, hvalue⟩ := bind_eq_ok.1 hvalue
      obtain ⟨i, -, hvalue⟩ := bind_eq_ok.1 hvalue
      rw [isProvablyNull, ih hsequence ho hasks (isClosedNull_of_closed hsequence ho)]
      cases o with
      | null => cases hvalue
      | _ => exact hnull
    all_goals decide
  | case4 operand ih =>
    rw [Evaluator.evaluate] at hvalue
    obtain ⟨o, ho, hvalue⟩ := bind_eq_ok.1 hvalue
    obtain rfl := Except.ok.inj hvalue
    exact ih hclosed ho hasks (isClosedNull_of_closed hclosed ho)
  | case5 e hconstant hmember hindex hconvert =>
    rw [isProvablyNull] <;> assumption

theorem handlesNegation_of_isWhole (hwhole : e.isWhole = true) (hclosed : e.isClosed = .ok true) :
    e.handlesNegation = .ok false := by
  cases e with
  | call target method args =>
    rw [Expr.handlesNegation, hclosed]
    cases method.anchor?.isSome <;> rfl
  | staticCall method args =>
    rw [Expr.handlesNegation, hclosed]
    cases method.anchor?.isSome <;> rfl
  | binary op =>
    cases op with
    | index => rfl
    | _ => cases hwhole
  | constant | param | unary | conditional | lambda => cases hwhole
  | _ => rfl

/-- A closed subtree that is evaluated as a whole stands for its value, as far as the value has the
type that the subtree is declared with. -/
theorem replaces_value (hwhole : e.isWhole = true) (hclosed : e.isClosed = .ok true)
    (hvalue : c.evaluator.evaluate e = .ok v)
    (htype : asked.type.Alike c (c.staticType? { binders } e) (some v.type))
    (hnull : asked.null = true → c.asksNull e = false) :
    c.Replaces binders asked e (.ofValue v) where
  closed := hclosed
  value := hvalue
  negation := handlesNegation_of_isWhole hwhole hclosed
  type s hs := by
    have hvalueType : c.staticType? s (.ofValue v) = some v.type := by
      rw [Expr.ofValue, staticType?, ite_self]
    rwa [hvalueType, staticType?_of_binders hs]
  null h := isProvablyNull_of_closed hclosed hvalue (hnull h)
  term _ s _ _ := by
    rw [term_of_isWhole hwhole (by simp [hclosed]), closedLiteral_of_closed hclosed]
    exact congrArg _ (literal_congr hvalue)

end Context

namespace Compiler

theorem orderKeys_congr {c : Compiler} {before after : List OrderKey} {key key' : Expr}
    {descending : Bool} (h : c.context.keyTerm key = c.context.keyTerm key') :
    c.orderKeys (before ++ ⟨key, descending⟩ :: after) =
      c.orderKeys (before ++ ⟨key', descending⟩ :: after) := by
  induction before with
  | nil => rw [List.nil_append, List.nil_append, orderKeys, orderKeys, h]
  | cons o rest ih => rw [List.cons_append, List.cons_append, orderKeys, orderKeys, ih]

/-- Trees that replace each other as a filter, or as a key of an order, give the same query. -/
theorem build_of_replaces {c : Compiler} {e e' : Expr} (r : Request)
    (h : c.context.Replaces [] { walked := true } e e') :
    c.build { r with filter := some e } = c.build { r with filter := some e' } ∧
      ∀ before after descending,
        c.build { r with order := before ++ ⟨e, descending⟩ :: after } =
          c.build { r with order := before ++ ⟨e', descending⟩ :: after } :=
  ⟨build_congr (filter_congr h) rfl, fun _ _ _ => build_congr rfl (orderKeys_congr h.keyTerm)⟩

/-- A closed subtree of a filter or of a key that is evaluated as a whole can be evaluated before
the query is built. Two things are known of the subtree and not of its value: the type that it is
declared with, where it is an operand of a sum or decides the type of something that members are
taken of; and, in a comparison for equality, that something `null` is asked for its value. -/
theorem build_evaluated (c : Compiler) (r : Request) {place : Place} {e : Expr} {v : Value}
    (hwhole : e.isWhole = true) (hclosed : e.isClosed = .ok true)
    (hvalue : c.context.evaluator.evaluate e = .ok v)
    (htype : (place.asks c.context e [] { walked := true }).type.Alike c.context
      (c.context.staticType? { binders := place.binders [] } e) (some v.type))
    (hnull : (place.asks c.context e [] { walked := true }).null = true →
      c.context.asksNull e = false) :
    c.build { r with filter := some (place.fill e) } =
        c.build { r with filter := some (place.fill (.ofValue v)) } ∧
      ∀ before after descending,
        c.build { r with order := before ++ ⟨place.fill e, descending⟩ :: after } =
          c.build { r with order := before ++ ⟨place.fill (.ofValue v), descending⟩ :: after } := by
  exact build_of_replaces r
    (Context.replaces_fill (Context.replaces_value hwhole hclosed hvalue htype hnull))

/-- People with a name. -/
def named : Compiler where
  context := {
    catalog := ⟨[{
      name := "Person"
      properties := [{ name := "Age", type := .int }, { name := "Name", type := .string }] }],
      List.pairwise_singleton _ _⟩
    evaluator := default }

/-- An age, joined with the name of somebody else. -/
theorem build_evaluated_name :
    let place : Place := [.bodyOf [⟨"p", "Person"⟩], .leftOf .equal (.ofValue (.string "3b")),
      .rightOf .add (.memberOf (.param "p" "Person") "Age")]
    let e : Expr := .memberOf (.ofValue (.record "Person" [("Name", .string "b")])) "Name"
    let r : Request := { model := "Person" }
    named.build { r with filter := some (place.fill e) } =
      named.build { r with filter := some (place.fill (.ofValue (.string "b"))) } := by
  intro place e r
  exact (@build_evaluated named r place e _ rfl rfl rfl Iff.rfl nofun).1

/-- Next to a name that is declared as a string, `+` joins texts, also if the name is `null`; next
to `null` alone, it adds numbers. -/
theorem build_evaluated_fails :
    let place : Place := [.bodyOf [⟨"p", "Person"⟩], .leftOf .equal (.ofValue (.string "x")),
      .rightOf .add (.memberOf (.param "p" "Person") "Age")]
    let e : Expr := .memberOf (.ofValue (.record "Person" [("Name", .null)])) "Name"
    let r : Request := { model := "Person" }
    e.isWhole = true ∧ e.isClosed = .ok true ∧
      named.context.evaluator.evaluate e = .ok .null ∧
      named.build { r with filter := some (place.fill e) } ≠
        named.build { r with filter := some (place.fill (.ofValue .null)) } := by
  refine ⟨rfl, rfl, rfl, fun h => ?_⟩
  have hfilter : some (Term.binary (.concat [.column "t0" "Age", .literal .null]) .equals
        (.literal (.string "x")) false) =
      some (.binary (.operation (.column "t0" "Age") .add (.literal .null)) .equals
        (.literal (.string "x")) false) :=
    congrArg (fun q => q.toOption.bind Sql.Query.filter) h
  cases hfilter

end Compiler

end PredicateSql
