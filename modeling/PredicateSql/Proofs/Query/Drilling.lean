import PredicateSql.Proofs.Query.Replacement
import PredicateSql.Proofs.Query.Searching

/-!
# Members of closed expressions

An evaluation goes from the last member of a chain to its owner. The walks over an expression come
from outside as well, but keep the names of the members until there is a value to take them of.

* `Expr.membersOf`: the chain of some members of an expression.
* `Context.term_membersOf`, `Context.search_membersOf`: at the foot of a chain, all its members wait.
* `Context.boundary_of_pending`: to take the members that wait of a value is to evaluate their
  chain.
* `Context.membersOf_spec`: so it does not matter how many members of a chain are part of the tree
  and how many wait already.
-/

namespace PredicateSql

variable {s : Scope} {e : Expr} {members : List (String × String)}

/-! ### Chains -/

namespace Expr

/-- Members of an expression, each taken of the one before. They are given by the types that they
are declared on and their names. -/
def membersOf (e : Expr) (members : List (String × String)) : Expr :=
  members.foldl (fun owner m => .member owner m.1 m.2) e

theorem membersOf_cons (m : String × String) (rest : List (String × String)) :
    e.membersOf (m :: rest) = (Expr.member e m.1 m.2).membersOf rest :=
  rfl

end Expr

/-- What lies around the foot of a chain of members with these names. -/
def Scope.withMembers (s : Scope) (names : List String) : Scope :=
  { s with pending := names ++ s.pending }

theorem Scope.withMember_withMembers (name : String) (names : List String) :
    (s.withMembers names).withMember name = s.withMembers (name :: names) :=
  rfl

namespace Context

variable {c : Context}

/-! ### Walks along chains -/

theorem term_membersOf : c.term s (e.membersOf members) =
    c.term (s.withMembers (members.map Prod.snd)) e := by
  induction members generalizing e with
  | nil => rfl
  | cons m rest ih =>
    rw [Expr.membersOf_cons, ih, term, Scope.withMember_withMembers, List.map_cons]

theorem search_membersOf : c.search s (e.membersOf members) =
    c.search (s.withMembers (members.map Prod.snd)) e := by
  induction members generalizing e with
  | nil => rfl
  | cons m rest ih =>
    rw [Expr.membersOf_cons, ih, search, Scope.withMember_withMembers, List.map_cons]

/-! ### Values of chains -/

/-- An error of the expression comes before those of its members, and theirs come in their order. -/
theorem evaluate_membersOf : c.evaluator.evaluate (e.membersOf members) =
    c.evaluator.evaluate e >>= fun value => drill value (members.map Prod.snd) := by
  induction members generalizing e with
  | nil => exact (bind_pure _).symm
  | cons m rest ih =>
    rw [Expr.membersOf_cons, ih, Evaluator.evaluate, bind_assoc]
    rfl

theorem boundary_of_pending (hpending : s.pending = members.map Prod.snd) :
    c.boundary s e = c.evaluator.evaluate (e.membersOf members) := by
  rw [boundary_eq, hpending, evaluate_membersOf]

/-! ### Walks over closed expressions -/

/-- A closed expression that members wait for is the literal of their chain. -/
theorem term_of_pending (hclosed : e.isClosed = .ok true) (hmembers : members ≠ [])
    (hpending : s.pending = members.map Prod.snd) :
    c.term s e = liftM (c.evaluator.evaluate (e.membersOf members) >>= literalOf) := by
  have hne : s.pending ≠ [] := by simpa [hpending] using hmembers
  rw [term_of_closed e s hclosed hne, literal, boundary_of_pending hpending]

/-- A closed expression that members wait for stands for the value of their chain. -/
theorem search_of_pending (hclosed : e.isClosed = .ok true)
    (hpending : s.pending = members.map Prod.snd) :
    c.search s e = liftM (do
      return some (Operand.values (← c.evaluator.evaluate (e.membersOf members)).toList)) := by
  rw [search_of_isClosed hclosed, closedOperand, boundary_of_pending hpending]

/-- Of a chain of members of a closed expression, `taken` are part of the tree, and `waiting` wait
for its value. Whether it is made a term or searched, the value of the whole chain is used, or the
error of its evaluation is the answer. No table is joined, and nothing is found. -/
theorem membersOf_spec (c : Context) {s : Scope} {e : Expr} {taken waiting : List (String × String)}
    (hparam : ¬ e.HasParam) (hlambda : ¬ e.HasLambda) (hmembers : taken ++ waiting ≠ [])
    (hwaiting : s.pending = waiting.map Prod.snd) (tree : JoinTree) (found : Findings) :
    (∀ value, c.evaluator.evaluate (e.membersOf (taken ++ waiting)) = .ok value →
      (c.term s (e.membersOf taken)).run tree = (literalOf value, tree) ∧
        (literalOf value = .ok (.literal value) ∨
          literalOf value = .error (.unrenderableValue value.typeName)) ∧
        (c.search s (e.membersOf taken)).run found =
          .ok (some (.values value.toList), found)) ∧
    ∀ err, c.evaluator.evaluate (e.membersOf (taken ++ waiting)) = .error err →
      (c.term s (e.membersOf taken)).run tree = (.error err, tree) ∧
        (c.search s (e.membersOf taken)).run found = .error err := by
  have hclosed : e.isClosed = .ok true := Expr.isClosed_iff.2 ⟨hparam, hlambda⟩
  have hpending : (s.withMembers (taken.map Prod.snd)).pending =
      (taken ++ waiting).map Prod.snd := by
    rw [Scope.withMembers, hwaiting, List.map_append]
  have hterm := term_of_pending (c := c) hclosed hmembers hpending
  have hsearch := search_of_pending (c := c) hclosed hpending
  rw [term_membersOf, search_membersOf, hterm, hsearch]
  constructor
  · intro value hvalue
    rw [hvalue]
    exact ⟨rfl, literalOf_cases value, rfl⟩
  · intro err herr
    rw [herr]
    exact ⟨rfl, rfl⟩

/-- The name of a manager who is `null` is `null`, and a name has no manager. -/
theorem membersOf_spec_manager :
    let person : Value := .record "Person" [("Manager", .null), ("Name", .string "b")]
    let e : Expr := .conditional (.ofValue (.bool true)) (.ofValue person) (.ofValue .null)
    let managerName := e.membersOf [("Person", "Manager"), ("Person", "Name")]
    let name := e.membersOf [("Person", "Name")]
    let s : Scope := { pending := ["Manager"] }
    ∀ (v : Evaluator) (tree : JoinTree) (found : Findings),
      let c : Context := ⟨.empty, v⟩
      (c.term {} managerName).run tree = (.ok (.literal .null), tree) ∧
        (c.search {} managerName).run found = .ok (some (.values [.null]), found) ∧
        (c.term s name).run tree = (.error (.unsupportedMember "string" "Manager"), tree) ∧
        (c.search s name).run found = .error (.unsupportedMember "string" "Manager") := by
  intro person e managerName name s v tree found c
  obtain ⟨hparam, hlambda⟩ := Expr.isClosed_iff.1 (show e.isClosed = .ok true from rfl)
  have hmanagerName : [("Person", "Manager"), ("Person", "Name")] ++ [] ≠ [] := nofun
  have hname : [("Person", "Name")] ++ [("string", "Manager")] ≠ [] := nofun
  have hnone : ({} : Scope).pending = ([] : List (String × String)).map Prod.snd := rfl
  have hs : s.pending = [("string", "Manager")].map Prod.snd := rfl
  obtain ⟨hterm, -, hsearch⟩ :=
    (membersOf_spec c hparam hlambda hmanagerName hnone tree found).1 .null rfl
  obtain ⟨hterm', hsearch'⟩ := (membersOf_spec c hparam hlambda hname hs tree found).2 _ rfl
  exact ⟨hterm, hsearch, hterm', hsearch'⟩

end Context

end PredicateSql
