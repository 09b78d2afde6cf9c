import PredicateSql.Proofs.Query.Composition

/-!
# Where `NULL` is written

* `Term.NullFree`: a term that does not compare `NULL` for equality and does not list it.
* `Compiler.nullFree_of_build`: queries have no other parts. Comparisons with `NULL` become tests
  against it, whichever way an expression comes to have no other value.
-/

namespace PredicateSql

open Sql (Term)

/-- The term does not compare `NULL` for equality, which would match nothing, and it does not list
it. No list is empty. -/
def Sql.Term.NullFree : Term → Prop
  | .binary left op right _ =>
    op = .equals ∨ op = .notEquals → left ≠ .literal .null ∧ right ≠ .literal .null
  | .inList _ list _ => list ≠ [] ∧ .literal .null ∉ list
  | _ => True

variable {a : Term}

theorem Sql.Term.ne_null_of_isNullLiteral (h : a.isNullLiteral = false) : a ≠ .literal .null := by
  rintro rfl
  cases h

theorem Sql.Term.nullFree_unparenthesized : a.unparenthesized.NullFree ↔ a.NullFree := by
  cases a <;> exact Iff.rfl

/-- So it is with all terms that expressions become. -/
theorem Context.Composes.nullFree {c : Context} {t : JoinTree} (h : c.Composes t a) :
    a.NullFree := by
  cases h with
  | @operation left right op hop hnull =>
    intro heq
    have hequality : op.isEquality = true := by
      rcases heq with rfl | rfl <;> rfl
    obtain ⟨hleft, hright⟩ := hnull hequality
    exact ⟨Term.ne_null_of_isNullLiteral hleft, Term.ne_null_of_isNullLiteral hright⟩
  | inList hne hnull =>
    exact ⟨hne, fun hmem => Term.ne_null_of_isNullLiteral (hnull _ hmem) rfl⟩
  | _ => exact trivial

namespace Compiler

/-- Nowhere in the filter or the order of a query, at any depth, is `NULL` compared for equality or
listed, and every list has an element. -/
theorem nullFree_of_build {c : Compiler} {r : Request} {q : Sql.Query} (h : c.build r = .ok q) :
    ∀ x, q.HasPart x → x.NullFree := by
  intro x hx
  obtain ⟨b, hb, rfl | rfl⟩ := composes_of_hasPart h hx
  · exact hb.nullFree
  · exact Term.nullFree_unparenthesized.2 hb.nullFree

/-- The people whose age is twice negated `null`, and whose number is in a list with a `null`. -/
def nullRequest : Request where
  model := "Person"
  filter := some (.lambda [⟨"p", "Person"⟩] (.binary .and
    (.binary .equal (.memberOf (.param "p" "Person") "Age")
      (.unary .not (.unary .not (.ofValue .null))))
    (.containsIn (.array .int [.ofValue .null, .ofValue (.int 3)])
      (.memberOf (.param "p" "Person") "Id"))))

/-- The comparison is a test, and so is one element of the list. -/
theorem nullFree_of_build_sample :
    let isNull : Term := .isNull (.column "t0" "Age") .equalsNull
    let listed : Term := .operation (.inList (.column "t0" "Id") [.literal (.int 3)] false) .or
      (.isNull (.column "t0" "Id") .equalsNull)
    ∃ q, sample.build nullRequest = .ok q ∧ q.filter = some (.binary isNull .and listed false) ∧
      ∀ x, q.HasPart x → x.NullFree := by
  intro isNull listed
  obtain ⟨q, hq, hfilter⟩ : ∃ q, sample.build nullRequest = .ok q ∧
      q.filter = some (.binary isNull .and listed false) := ⟨_, rfl, rfl⟩
  exact ⟨q, hq, hfilter, nullFree_of_build hq⟩

end Compiler

end PredicateSql
