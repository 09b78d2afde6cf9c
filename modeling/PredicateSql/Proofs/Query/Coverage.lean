import PredicateSql.Proofs.Evaluation.Equality
import PredicateSql.Proofs.Query.Findings
import PredicateSql.Proofs.Query.Searching

/-!
# What a filter asks for is found

The values that are extracted from a filter may be too many, but where the filter binds a property
to some values, they are not too few.

* `Row`: a value for every chain of members, and a truth value for every condition that cannot be
  decided by these. `Row.holds`: the truth of a filter for a row.
* `Context.Binds`: a condition that can be true only of rows with certain values of a chain, or only
  be false of such rows. A negation changes the one into the other.
* `Context.search_covers`: the search of such a condition finds the value of every such row. The
  induction is on `Binds`, for both truth values at once.
* `Context.extract_covers`: so the values that are extracted from a filter which binds a property
  hold the values that matching rows have for it.
-/

namespace PredicateSql

/-! ### Searches that succeed -/

namespace Search

variable {α β : Type} {found found' : Findings}

theorem run_bind_eq_ok {w : Search α} {f : α → Search β} {b : β} :
    (w >>= f).run found = .ok (b, found') ↔
      ∃ a mid, w.run found = .ok (a, mid) ∧ (f a).run mid = .ok (b, found') := by
  rw [StateT.run_bind, bind_eq_ok]
  constructor
  · rintro ⟨⟨a, mid⟩, ha, hb⟩
    exact ⟨a, mid, ha, hb⟩
  · rintro ⟨a, mid, ha, hb⟩
    exact ⟨(a, mid), ha, hb⟩

theorem run_lift_eq_ok {x : Except QueryError α} {a : α} :
    (liftM x : Search α).run found = .ok (a, found') ↔ x = .ok a ∧ found = found' := by
  cases x with
  | error err => exact ⟨nofun, nofun⟩
  | ok b =>
    show (Except.ok (b, found) : Except QueryError (α × Findings)) = .ok (a, found') ↔ _
    simp

end Search

/-! ### Chains and closed expressions -/

/-- The parameter that an expression takes members of and nothing else, with the members that it
takes and those that follow. -/
def Expr.chain? (after : List String) : Expr → Option (Param × List String)
  | .member owner _ name => owner.chain? (name :: after)
  | .unary .convert operand => operand.chain? after
  | .param name model => some (⟨name, model⟩, after)
  | _ => none

theorem Expr.isClosed_of_chain? {e : Expr} {after : List String} {chain : Param × List String}
    (h : e.chain? after = some chain) : e.isClosed = .ok false := by
  fun_induction chain? after e with
  | case1 after owner type name ih => rw [isClosed, ih h]
  | case2 after operand ih => rw [isClosed, ih h]
  | case3 => rfl
  | case4 => cases h

namespace Context

variable {c : Context} {s : Scope} {e : Expr} {chain : Param × List String}

/-- The value of a closed expression, if it has one. -/
def closedValue? (c : Context) (e : Expr) : Option Value :=
  match e.isClosed, c.evaluator.evaluate e with
  | .ok true, .ok value => some value
  | _, _ => none

theorem closedValue?_eq {value : Value} (hclosed : e.isClosed = .ok true)
    (h : c.evaluator.evaluate e = .ok value) : c.closedValue? e = some value := by
  rw [closedValue?, hclosed, h]

theorem closedValue?_of_chain? (h : e.chain? [] = some chain) : c.closedValue? e = none := by
  rw [closedValue?, Expr.isClosed_of_chain? h]

/-- The search of a chain asks what the chain stands for. -/
theorem search_of_chain? {after : List String} (h : e.chain? after = some chain) :
    ∀ {s : Scope}, s.pending = after → c.search s e = liftM
      (c.operandOf { binders := s.binders, pending := chain.2 } chain.1.name chain.1.model) := by
  fun_induction Expr.chain? after e with
  | case1 after owner type name ih =>
    intro s hs
    exact ih h (s := s.withMember name) (by rw [← hs]; rfl)
  | case2 after operand ih =>
    intro s hs
    exact ih h hs
  | case3 after name model =>
    intro s hs
    obtain rfl := Option.some.inj h
    have hsame : c.operandOf s name model =
        c.operandOf { binders := s.binders, pending := after } name model := by
      apply operandOf_congr
      · rfl
      · exact hs
    rw [search, hsame]
  | case4 => cases h

end Context

/-! ### Rows -/

/-- What is known of a row: the value of every chain of members, and the truth of every condition
that cannot be decided by them. -/
structure Row where
  value : Param × List String → Value
  truth : Expr → Bool

namespace Row

variable {c : Context} {row : Row}

/-- A comparison for equality of a chain and a closed expression is decided by their values. -/
def isEqual (row : Row) (c : Context) (left right : Expr) : Bool :=
  match left.chain? [], c.closedValue? right, c.closedValue? left, right.chain? [] with
  | some chain, some value, _, _ => (row.value chain).equals value
  | _, _, some value, some chain => value.equals (row.value chain)
  | _, _, _, _ => row.truth (.binary .equal left right)

/-- The membership of a chain in a closed list is decided by their values. -/
def isMember (row : Row) (c : Context) (e : Expr) (method : Method) (collection item : Expr) :
    Bool :=
  if method.known? = some .contains ∧ method.declaringType.isSequence then
    match c.closedValue? collection, item.chain? [] with
    | some (.list items), some chain => items.any (·.equals (row.value chain))
    | _, _ => row.truth e
  else row.truth e

/-- A filter is true of a row. -/
def holds (row : Row) (c : Context) : Expr → Bool
  | .binary .and left right => row.holds c left && row.holds c right
  | .binary .or left right => row.holds c left || row.holds c right
  | .unary .not operand => !row.holds c operand
  | .unary .convert operand | .lambda _ operand => row.holds c operand
  | .conditional test ifTrue ifFalse =>
    if row.holds c test then row.holds c ifTrue else row.holds c ifFalse
  | .binary .equal left right => row.isEqual c left right
  | .staticCall method [collection, item] =>
    row.isMember c (.staticCall method [collection, item]) method collection item
  | .call collection method [item] =>
    row.isMember c (.call collection method [item]) method collection item
  | e => row.truth e

/-- The value that a row has for a chain is among those that were found for a property. -/
def IsFound (row : Row) (chain : Param × List String) (name : String) (found : Findings) : Prop :=
  ∃ values, found.values.lookup name = some values ∧
    ∃ v ∈ values, (row.value chain).equals v = true

end Row

/-- A property of a model is among those that are asked for. -/
structure Findings.AsksFor (found : Findings) (model name : String) : Prop where
  model_eq : found.model = model
  lookup : ∃ values, found.values.lookup name = some values

theorem Findings.AsksFor.of_isPrefix {found found' : Findings} {model name : String}
    (h : found.AsksFor model name) (hgrown : found.IsPrefix found') :
    found'.AsksFor model name := by
  obtain ⟨more, rfl⟩ := hgrown
  obtain ⟨rfl, values, hvalues⟩ := h
  exact ⟨rfl, _, by rw [lookup_extend, hvalues]; rfl⟩

namespace Row

variable {row : Row} {chain : Param × List String} {name : String} {found found' : Findings}

theorem IsFound.of_isPrefix (h : row.IsFound chain name found)
    (hgrown : found.IsPrefix found') : row.IsFound chain name found' := by
  obtain ⟨more, rfl⟩ := hgrown
  obtain ⟨values, hvalues, v, hv, hequal⟩ := h
  exact ⟨_, by rw [Findings.lookup_extend, hvalues]; rfl, v, List.mem_append_left _ hv, hequal⟩

/-- A finding that holds the value of the row, of a property that is asked for. -/
theorem isFound_write {model : String} {values : List Value} (hasks : found.AsksFor model name)
    (h : ∃ v ∈ values, (row.value chain).equals v = true) :
    row.IsFound chain name (found.write ⟨model, name, values⟩) := by
  obtain ⟨v, hv, hequal⟩ := h
  obtain ⟨rfl, before, hbefore⟩ := hasks
  refine ⟨before ++ values, ?_, v, List.mem_append_right _ hv, hequal⟩
  rw [Findings.write_eq, Findings.lookup_extend, hbefore]
  simp [Finding.valuesFor]

end Row

/-- Both operands decide the operation: a conjunction is true, or a disjunction is false, only if
both operands are. -/
def BinaryOp.needsBoth (op : BinaryOp) (negated : Bool) : Bool :=
  match op, negated with
  | .and, false | .or, true => true
  | _, _ => false

theorem BinaryOp.isLogical_of_needsBoth {op : BinaryOp} {negated : Bool}
    (h : op.needsBoth negated = true) : op.isLogical = true := by
  cases op <;> cases negated <;> first | rfl | cases h

namespace Row

variable {c : Context} {row : Row} {op : BinaryOp} {left right : Expr} {negated : Bool}

theorem holds_of_needsBoth (hop : op.needsBoth negated = true)
    (h : row.holds c (.binary op left right) = !negated) :
    row.holds c left = (!negated) ∧ row.holds c right = !negated := by
  cases op <;> cases negated <;> simp_all [BinaryOp.needsBoth, holds]

theorem holds_of_isLogical (hop : op.isLogical = true)
    (h : row.holds c (.binary op left right) = !negated) :
    row.holds c left = (!negated) ∨ row.holds c right = !negated := by
  cases op <;> simp only [BinaryOp.isLogical, Bool.false_eq_true] at hop
  all_goals
    rw [holds] at h
    cases hleft : row.holds c left <;> cases negated <;> simp_all

end Row

/-! ### Conditions that bind -/

namespace Context

variable {c : Context} {chain : Param × List String} {model name : String}
  {binders : List (String × String)} {negated : Bool} {e : Expr}

/-- Where some parameters are bound, a chain stands for a property. -/
def Resolves (c : Context) (chain : Param × List String) (model name : String)
    (binders : List (String × String)) : Prop :=
  c.operandOf { binders, pending := chain.2 } chain.1.name chain.1.model =
    .ok (some (.property model name))

/-- A condition that is true only of rows with certain values of a chain, or false only of such rows
where it is negated. The chain stands for a property wherever it is compared. -/
inductive Binds (c : Context) (chain : Param × List String) (model name : String) :
    List (String × String) → Bool → Expr → Prop
  | chainEqual {binders : List (String × String)} {left right : Expr}
    (hchain : left.chain? [] = some chain) (hresolves : c.Resolves chain model name binders)
    (hclosed : right.isClosed = .ok true) :
    Binds c chain model name binders false (.binary .equal left right)
  | equalChain {binders : List (String × String)} {left right : Expr}
    (hclosed : left.isClosed = .ok true) (hchain : right.chain? [] = some chain)
    (hresolves : c.Resolves chain model name binders) :
    Binds c chain model name binders false (.binary .equal left right)
  | staticContains {binders : List (String × String)} {method : Method} {collection item : Expr}
    {items : List Value}
    (hmethod : method.known? = some .contains ∧ method.declaringType.isSequence = true)
    (hclosed : collection.isClosed = .ok true)
    (hlist : c.evaluator.evaluate collection = .ok (.list items))
    (hchain : item.chain? [] = some chain) (hresolves : c.Resolves chain model name binders) :
    Binds c chain model name binders false (.staticCall method [collection, item])
  | contains {binders : List (String × String)} {method : Method} {collection item : Expr}
    {items : List Value}
    (hmethod : method.known? = some .contains ∧ method.declaringType.isSequence = true)
    (hclosed : collection.isClosed = .ok true)
    (hlist : c.evaluator.evaluate collection = .ok (.list items))
    (hchain : item.chain? [] = some chain) (hresolves : c.Resolves chain model name binders) :
    Binds c chain model name binders false (.call collection method [item])
  | left {binders : List (String × String)} {negated : Bool} {op : BinaryOp} {left right : Expr}
    (hop : op.needsBoth negated = true) (h : Binds c chain model name binders negated left) :
    Binds c chain model name binders negated (.binary op left right)
  | right {binders : List (String × String)} {negated : Bool} {op : BinaryOp} {left right : Expr}
    (hop : op.needsBoth negated = true) (h : Binds c chain model name binders negated right) :
    Binds c chain model name binders negated (.binary op left right)
  | both {binders : List (String × String)} {negated : Bool} {op : BinaryOp} {left right : Expr}
    (hop : op.isLogical = true) (hleft : Binds c chain model name binders negated left)
    (hright : Binds c chain model name binders negated right) :
    Binds c chain model name binders negated (.binary op left right)
  | conditional {binders : List (String × String)} {negated : Bool} {test ifTrue ifFalse : Expr}
    (hTrue : Binds c chain model name binders negated ifTrue)
    (hFalse : Binds c chain model name binders negated ifFalse) :
    Binds c chain model name binders negated (.conditional test ifTrue ifFalse)
  | not {binders : List (String × String)} {negated : Bool} {operand : Expr}
    (h : Binds c chain model name binders (!negated) operand) :
    Binds c chain model name binders negated (.unary .not operand)
  | convert {binders : List (String × String)} {negated : Bool} {operand : Expr}
    (h : Binds c chain model name binders negated operand) :
    Binds c chain model name binders negated (.unary .convert operand)
  | lambda {binders : List (String × String)} {negated : Bool} {p : Param} {body : Expr}
    (h : Binds c chain model name ((p.name, p.model) :: binders) negated body) :
    Binds c chain model name binders negated (.lambda [p] body)

theorem isClosed_binary {op : BinaryOp} {left right : Expr}
    (h : (Expr.binary op left right).isClosed = .ok true) :
    left.isClosed = .ok true ∧ right.isClosed = .ok true := by
  rw [Expr.isClosed] at h
  obtain ⟨closed, hleft, h⟩ := bind_eq_ok.1 h
  cases closed with
  | true => exact ⟨hleft, h⟩
  | false => cases h

/-- A condition that binds a chain is not closed. -/
theorem Binds.not_closed (h : c.Binds chain model name binders negated e) :
    e.isClosed ≠ .ok true := by
  have hopen : ∀ {item : Expr}, item.chain? [] = some chain → item.isClosed ≠ .ok true := by
    intro item hchain hclosed
    rw [Expr.isClosed_of_chain? hchain] at hclosed
    cases hclosed
  intro hclosed
  induction h with
  | chainEqual hchain => exact hopen hchain (isClosed_binary hclosed).1
  | equalChain _ hchain => exact hopen hchain (isClosed_binary hclosed).2
  | staticContains _ hcollection _ hchain | contains _ hcollection _ hchain =>
    simp only [Expr.isClosed, Expr.areClosed, hcollection, Expr.isClosed_of_chain? hchain]
      at hclosed
    cases hclosed
  | left _ _ ih => exact ih (isClosed_binary hclosed).1
  | right _ _ ih => exact ih (isClosed_binary hclosed).2
  | both _ _ _ ih => exact ih (isClosed_binary hclosed).1
  | @conditional _ _ test ifTrue _ _ _ ih =>
    rw [Expr.isClosed] at hclosed
    obtain ⟨testClosed, -, hclosed⟩ := bind_eq_ok.1 hclosed
    cases testClosed with
    | false => cases hclosed
    | true =>
      obtain ⟨trueClosed, hTrue, hclosed⟩ := bind_eq_ok.1 hclosed
      cases trueClosed with
      | false => cases hclosed
      | true => exact ih hTrue
  | not _ ih | convert _ ih => exact ih hclosed
  | lambda => cases hclosed

/-! ### Searches of conditions that bind -/

variable {s : Scope} {row : Row} {found found' : Findings} {operand : Option Operand}

/-- A node that is not closed contributes by what is within it. -/
theorem run_of_searchNode {walk : Search Unit} (hopen : e.isClosed ≠ .ok true)
    (h : (c.searchNode s e walk).run found = .ok (operand, found')) :
    walk.run found = .ok ((), found') := by
  unfold searchNode at h
  obtain ⟨closed, mid, hclosed, h⟩ := Search.run_bind_eq_ok.1 h
  obtain ⟨hanswer, rfl⟩ := Search.run_lift_eq_ok.1 hclosed
  cases closed with
  | true => exact absurd hanswer hopen
  | false =>
    obtain ⟨_, _, hwalk, h⟩ := Search.run_bind_eq_ok.1 h
    obtain ⟨-, rfl⟩ := Prod.mk.inj (Except.ok.inj h)
    exact hwalk

/-- Both operands of a logical operator are searched, under the negations around it. -/
theorem run_of_isLogical {op : BinaryOp} {left right : Expr} (hop : op.isLogical = true)
    (hopen : (Expr.binary op left right).isClosed ≠ .ok true)
    (h : (c.search s (.binary op left right)).run found = .ok (operand, found')) :
    ∃ a mid b, (c.search s.isolated left).run found = .ok (a, mid) ∧
      (c.search s.isolated right).run mid = .ok (b, found') := by
  have hwalk : (do
      let _ ← c.search s.isolated left
      let _ ← c.search s.isolated right
      : Search Unit).run found = .ok ((), found') := by
    cases op <;> simp only [BinaryOp.isLogical, Bool.false_eq_true] at hop
    all_goals exact run_of_searchNode hopen h
  obtain ⟨a, mid, hleft, hwalk⟩ := Search.run_bind_eq_ok.1 hwalk
  obtain ⟨b, _, hright, hwalk⟩ := Search.run_bind_eq_ok.1 hwalk
  obtain ⟨-, rfl⟩ := Prod.mk.inj (Except.ok.inj hwalk)
  exact ⟨a, mid, b, hleft, hright⟩

/-- What a chain and a closed expression stand for, searched one after the other. -/
theorem run_chain {item : Expr} (hchain : item.chain? [] = some chain)
    (hresolves : c.Resolves chain model name binders) (hs : s.binders = binders)
    (h : (c.search s.isolated.neutral item).run found = .ok (operand, found')) :
    operand = some (.property model name) ∧ found = found' := by
  rw [search_of_chain? hchain rfl] at h
  obtain ⟨h, hfound⟩ := Search.run_lift_eq_ok.1 h
  have hoperand : Except.ok (some (.property model name)) = Except.ok operand :=
    hresolves.symm.trans (hs ▸ h)
  exact ⟨(Except.ok.inj hoperand).symm, hfound⟩

theorem run_closed (hclosed : e.isClosed = .ok true)
    (h : (c.search s.isolated.neutral e).run found = .ok (operand, found')) :
    ∃ value, c.evaluator.evaluate e = .ok value ∧ operand = some (.values value.toList) ∧
      found = found' := by
  rw [search_of_isClosed hclosed] at h
  obtain ⟨h, hfound⟩ := Search.run_lift_eq_ok.1 h
  obtain ⟨value, hvalue, h⟩ := bind_eq_ok.1 h
  refine ⟨value, ?_, (Except.ok.inj h).symm, hfound⟩
  rw [← hvalue]
  exact (boundary_isolated (s := s.neutral)).symm

theorem run_contribute {a b : Option Operand}
    (h : (contribute a b).run found = .ok ((), found')) :
    found' = (Finding.of? a b).elim found found.write :=
  (Prod.mk.inj (Except.ok.inj h)).2.symm

/-- The membership of a chain in a closed list, where no negation stands around it. -/
theorem covers_contains {collection item : Expr} {method : Method} {items : List Value}
    (hmethod : method.known? = some .contains ∧ method.declaringType.isSequence = true)
    (hclosed : collection.isClosed = .ok true)
    (hlist : c.evaluator.evaluate collection = .ok (.list items))
    (hchain : item.chain? [] = some chain) (hresolves : c.Resolves chain model name binders)
    (hs : s.binders = binders) (hnegated : s.negated = false) (hasks : found.AsksFor model name)
    (h : (searchContains s.negated (c.search s.isolated.neutral collection)
      (c.search s.isolated.neutral item)).run found = .ok ((), found'))
    (hholds : row.isMember c e method collection item = true) :
    row.IsFound chain name found' := by
  unfold searchContains at h
  rw [hnegated] at h
  obtain ⟨a, mid, ha, h⟩ := Search.run_bind_eq_ok.1 h
  obtain ⟨b, last, hb, h⟩ := Search.run_bind_eq_ok.1 h
  obtain ⟨value, hevaluate, rfl, rfl⟩ := run_closed hclosed ha
  obtain ⟨rfl, rfl⟩ := run_chain hchain hresolves hs hb
  obtain rfl : value = .list items := Except.ok.inj (hevaluate.symm.trans hlist)
  obtain rfl := run_contribute h
  rw [Row.isMember, if_pos hmethod, closedValue?_eq hclosed hlist, hchain] at hholds
  obtain ⟨v, hv, hequal⟩ := List.any_eq_true.1 hholds
  exact Row.isFound_write hasks ⟨v, hv, by rw [Value.equals_comm, hequal]⟩

/-- A search finds the value that a row has for a chain, if the condition that it searches binds the
chain and is true of the row, or false where it is negated. -/
theorem search_covers (hvalue : ∀ items, row.value chain ≠ .list items)
    (h : c.Binds chain model name binders negated e) :
    ∀ {s : Scope} {found found' : Findings} {operand : Option Operand},
      s.binders = binders → s.negated = negated → found.AsksFor model name →
      (c.search s e).run found = .ok (operand, found') → row.holds c e = (!negated) →
      row.IsFound chain name found' := by
  induction h with
  | chainEqual hchain hresolves hclosed =>
    intro s found found' operand hs hnegated hasks hrun hholds
    have hopen := (Binds.chainEqual hchain hresolves hclosed).not_closed
    obtain ⟨a, mid, ha, hrun⟩ := Search.run_bind_eq_ok.1 (run_of_searchNode hopen hrun)
    obtain ⟨b, last, hb, hrun⟩ := Search.run_bind_eq_ok.1 hrun
    obtain ⟨rfl, rfl⟩ := run_chain hchain hresolves hs ha
    obtain ⟨value, hevaluate, rfl, rfl⟩ := run_closed hclosed hb
    obtain rfl := run_contribute hrun
    have hequal : (row.value chain).equals value = true := by
      simpa [Row.holds, Row.isEqual, hchain, closedValue?_eq hclosed hevaluate] using hholds
    exact Row.isFound_write hasks (Value.exists_mem_toList hvalue hequal)
  | equalChain hclosed hchain hresolves =>
    intro s found found' operand hs hnegated hasks hrun hholds
    have hopen := (Binds.equalChain hclosed hchain hresolves).not_closed
    obtain ⟨a, mid, ha, hrun⟩ := Search.run_bind_eq_ok.1 (run_of_searchNode hopen hrun)
    obtain ⟨b, last, hb, hrun⟩ := Search.run_bind_eq_ok.1 hrun
    obtain ⟨value, hevaluate, rfl, rfl⟩ := run_closed hclosed ha
    obtain ⟨rfl, rfl⟩ := run_chain hchain hresolves hs hb
    obtain rfl := run_contribute hrun
    have hequal : value.equals (row.value chain) = true := by
      simpa [Row.holds, Row.isEqual, hchain, closedValue?_of_chain? hchain,
        closedValue?_eq hclosed hevaluate] using hholds
    rw [Value.equals_comm] at hequal
    exact Row.isFound_write hasks (Value.exists_mem_toList hvalue hequal)
  | staticContains hmethod hclosed hlist hchain hresolves =>
    intro s found found' operand hs hnegated hasks hrun hholds
    have hopen := (Binds.staticContains hmethod hclosed hlist hchain hresolves).not_closed
    have hwalk := run_of_searchNode hopen hrun
    rw [if_pos hmethod] at hwalk
    exact covers_contains hmethod hclosed hlist hchain hresolves hs hnegated hasks hwalk hholds
  | contains hmethod hclosed hlist hchain hresolves =>
    intro s found found' operand hs hnegated hasks hrun hholds
    have hopen := (Binds.contains hmethod hclosed hlist hchain hresolves).not_closed
    have hwalk := run_of_searchNode hopen hrun
    rw [if_pos hmethod] at hwalk
    exact covers_contains hmethod hclosed hlist hchain hresolves hs hnegated hasks hwalk hholds
  | left hop hbinds ih =>
    intro s found found' operand hs hnegated hasks hrun hholds
    obtain ⟨a, mid, b, hleft, hright⟩ := run_of_isLogical
      (BinaryOp.isLogical_of_needsBoth hop) (Binds.left hop hbinds).not_closed hrun
    obtain ⟨hholdsLeft, -⟩ := Row.holds_of_needsBoth hop hholds
    have hfound := ih (s := s.isolated) hs hnegated hasks hleft hholdsLeft
    exact hfound.of_isPrefix (search_isPrefix hright)
  | right hop hbinds ih =>
    intro s found found' operand hs hnegated hasks hrun hholds
    obtain ⟨a, mid, b, hleft, hright⟩ := run_of_isLogical
      (BinaryOp.isLogical_of_needsBoth hop) (Binds.right hop hbinds).not_closed hrun
    have hmid := hasks.of_isPrefix (search_isPrefix hleft)
    exact ih (s := s.isolated) hs hnegated hmid hright (Row.holds_of_needsBoth hop hholds).2
  | both hop hbindsLeft hbindsRight ihLeft ihRight =>
    intro s found found' operand hs hnegated hasks hrun hholds
    obtain ⟨a, mid, b, hleft, hright⟩ := run_of_isLogical hop
      (Binds.both hop hbindsLeft hbindsRight).not_closed hrun
    -- The row may satisfy either operand, and both are searched.
    rcases Row.holds_of_isLogical hop hholds with hholds | hholds
    · have hfound := ihLeft (s := s.isolated) hs hnegated hasks hleft hholds
      exact hfound.of_isPrefix (search_isPrefix hright)
    · have hmid := hasks.of_isPrefix (search_isPrefix hleft)
      exact ihRight (s := s.isolated) hs hnegated hmid hright hholds
  | @conditional _ _ test _ _ hTrue hFalse ihTrue ihFalse =>
    intro s found found' operand hs hnegated hasks hrun hholds
    have hbinds : c.Binds chain model name _ _ (.conditional test _ _) :=
      .conditional hTrue hFalse
    have hopen := hbinds.not_closed
    obtain ⟨_, start, hrunTest, hrun⟩ := Search.run_bind_eq_ok.1 (run_of_searchNode hopen hrun)
    obtain ⟨_, mid, hrunTrue, hrun⟩ := Search.run_bind_eq_ok.1 hrun
    obtain ⟨_, last, hrunFalse, hrun⟩ := Search.run_bind_eq_ok.1 hrun
    obtain ⟨-, rfl⟩ := Prod.mk.inj (Except.ok.inj hrun)
    rw [Row.holds] at hholds
    have hstart := hasks.of_isPrefix (search_isPrefix hrunTest)
    -- Whichever branch the row takes, both are searched.
    split at hholds
    · have hfound := ihTrue (s := s.isolated) hs hnegated hstart hrunTrue hholds
      exact hfound.of_isPrefix (search_isPrefix hrunFalse)
    · have hmid := hstart.of_isPrefix (search_isPrefix hrunTrue)
      exact ihFalse (s := s.isolated) hs hnegated hmid hrunFalse hholds
  | not hbinds ih =>
    intro s found found' operand hs hnegated hasks hrun hholds
    have hopen := (Binds.not hbinds).not_closed
    obtain ⟨_, _, hoperand, hrest⟩ := Search.run_bind_eq_ok.1 (run_of_searchNode hopen hrun)
    obtain ⟨-, rfl⟩ := Prod.mk.inj (Except.ok.inj hrest)
    rw [Row.holds] at hholds
    refine ih (s := s.isolated.inverted) hs (congrArg Bool.not hnegated) hasks hoperand ?_
    rw [← hholds, Bool.not_not]
  | convert _ ih =>
    intro s found found' operand hs hnegated hasks hrun hholds
    exact ih hs hnegated hasks hrun hholds
  | @lambda _ _ p _ _ ih =>
    intro s found found' operand hs hnegated hasks hrun hholds
    exact ih (s := { s with binders := (p.name, p.model) :: s.binders })
      (congrArg (List.cons _) hs) hnegated hasks hrun hholds

/-! ### Extraction -/

/-- Where a filter binds a chain to some values and the chain stands for a property that is asked
for, the extracted values hold the value that every matching row has for the chain. -/
theorem extract_covers {filter : Expr} {names : List String}
    {extracted : List (String × List Value)}
    (h : c.extract filter model names = .ok extracted) (hname : name ∈ names)
    (hbinds : c.Binds chain model name [] false filter) (hholds : row.holds c filter = true)
    (hvalue : ∀ items, row.value chain ≠ .list items) :
    ∃ values, extracted.lookup name = some values ∧
      ∃ v ∈ values, (row.value chain).equals v = true := by
  unfold extract at h
  obtain ⟨_, -, h⟩ := bind_eq_ok.1 h
  obtain ⟨⟨operand, found⟩, hrun, h⟩ := bind_eq_ok.1 h
  obtain rfl := Except.ok.inj h
  have hasks : (Findings.ofNames model names).AsksFor model name :=
    ⟨rfl, [], List.lookup_graph _ (List.mem_eraseDups.2 hname)⟩
  exact search_covers (s := {}) hvalue hbinds rfl rfl hasks hrun hholds

/-- A filter on the friends of people, all of whom are 20 or 30 years old if it is true. -/
def boundFilter : Expr :=
  let age := Expr.memberOf (.memberOf (.param "p" "Person") "Friend") "Age"
  .lambda [⟨"p", "Person"⟩]
    (.unary .not (.binary .or
      (.unary .not (.containsIn (.ofValue (.list [.int 20, .int 30])) age))
      (.memberOf (.param "p" "Person") "IsActive")))

/-- Under two negations, the list is asked for. -/
theorem extract_covers_list :
    let c := Compiler.sample.context
    let row : Row := { value := fun _ => .int 30, truth := fun _ => false }
    ∃ extracted, c.extract boundFilter "Person" ["Age"] = .ok extracted ∧
      row.holds c boundFilter = true ∧ ∃ values, extracted.lookup "Age" = some values ∧
        ∃ v ∈ values, (row.value (⟨"p", "Person"⟩, ["Friend", "Age"])).equals v = true := by
  intro c row
  obtain ⟨extracted, hextracted⟩ : ∃ extracted,
      c.extract boundFilter "Person" ["Age"] = .ok extracted := ⟨_, rfl⟩
  let chain : Param × List String := (⟨"p", "Person"⟩, ["Friend", "Age"])
  have hbinds : c.Binds chain "Person" "Age" [] false boundFilter := by
    have hcontains : c.Binds chain "Person" "Age"
        [("p", "Person")] false (.containsIn (.ofValue (.list [.int 20, .int 30]))
          (.memberOf (.memberOf (.param "p" "Person") "Friend") "Age")) :=
      .staticContains ⟨by decide, rfl⟩ rfl rfl rfl rfl
    exact .lambda (.not (.left rfl (.not hcontains)))
  have hholds : row.holds c boundFilter = true := by decide
  exact ⟨extracted, hextracted, hholds,
    extract_covers hextracted List.mem_cons_self hbinds hholds nofun⟩

end Context

end PredicateSql
