import PredicateSql.Sql.Query

/-!
# The parts of terms

* `Term.operands`: the terms that a term is made of. `Term.IsPartOf`: a term within another one, at
  any depth.
* `Term.rightOperands`: the operands that stand to the right of an operator which binds tighter
  than a test against `NULL`.
* `Query.HasPart`: a term somewhere in a statement.
-/

namespace PredicateSql.Sql

namespace Term

/-- The terms that a term is made of, in the order in which they are written. -/
def operands : Term → List Term
  | .literal _ | .column .. => []
  | .binary left _ right _ => [left, right]
  | .negative operand | .not operand | .isNull operand _ => [operand]
  | .inList item list _ => item :: list
  | .like item pattern _ _ => [item, pattern]
  | .concat parts => parts
  | .conditional test ifTrue ifFalse => [test, ifTrue, ifFalse]
  | .call _ args => args

/-- The operands that stand to the right of a comparison, an arithmetic operator, a concatenation,
`LIKE` or a minus sign. -/
def rightOperands : Term → List Term
  | .binary _ op right _ => if op = .and ∨ op = .or then [] else [right]
  | .negative operand => [operand]
  | .like _ pattern _ _ => [pattern]
  | .concat parts => parts.tail
  | _ => []

variable {a b x : Term}

theorem operands_unparenthesized (a : Term) : a.unparenthesized.operands = a.operands := by
  cases a <;> rfl

theorem operands_of_mem_rightOperands (h : x ∈ a.rightOperands) : x ∈ a.operands := by
  cases a with
  | binary left op right =>
    rw [rightOperands] at h
    split at h
    · cases h
    · exact List.mem_cons_of_mem _ h
  | negative => exact h
  | like => exact List.mem_cons_of_mem _ h
  | concat => exact List.mem_of_mem_tail h
  | _ => cases h

/-- A term stands within another one. -/
inductive IsPartOf (x : Term) : Term → Prop
  | self : IsPartOf x x
  | operand {a b : Term} (hb : b ∈ a.operands) (hx : IsPartOf x b) : IsPartOf x a

/-- The parts of a term are the term and the parts of its operands. -/
theorem isPartOf_iff : x.IsPartOf a ↔ x = a ∨ ∃ b ∈ a.operands, x.IsPartOf b := by
  constructor
  · rintro (_ | ⟨hb, hx⟩)
    · exact .inl rfl
    · exact .inr ⟨_, hb, hx⟩
  · rintro (rfl | ⟨b, hb, hx⟩)
    · exact .self
    · exact .operand hb hx

/-- A property that terms pass on to their operands is passed on to all parts. -/
theorem IsPartOf.of_operands {P : Term → Prop} (hP : ∀ b, P b → ∀ d ∈ b.operands, P d)
    (h : x.IsPartOf a) (ha : P a) : P x := by
  induction h with
  | self => exact ha
  | operand hb _ ih => exact ih (hP _ ha _ hb)

end Term

namespace Query

/-- The terms that stand in a statement directly: the filter and the keys of the order. -/
def terms (q : Query) : List Term :=
  q.filter.toList ++ q.order.map OrderBy.key

/-- A term stands somewhere in a statement. -/
def HasPart (q : Query) (x : Term) : Prop :=
  ∃ a ∈ q.terms, x.IsPartOf a

end Query

end PredicateSql.Sql
