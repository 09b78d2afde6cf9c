import PredicateSql.Proofs.Query.Formation
import PredicateSql.Proofs.Sql.Printer

/-!
# The order of operations

A test against `NULL` binds looser than comparisons and arithmetic, and it is written without
parentheses around it.

* `Printer.SelfDelimiting`: terms whose text a reader takes as a whole, whatever stands before it.
* `Compiler.selfDelimiting_iff`: the terms to the right of an operator are of that kind, unless they
  are tests against `NULL`. `Compiler.selfDelimiting_fails`: a query with such a test.
-/

namespace PredicateSql

open Sql (Term)
open Text (Balanced Enclosed Spelled)

/-! ### Terms between brackets -/

/-- The text of a term is that of a literal, a column, a call or a `CASE` expression, or it is
enclosed by brackets. -/
def Sql.Printer.SelfDelimiting (p : Sql.Printer) : Term → Prop
  | .literal _ | .column .. | .call .. | .conditional .. => True
  | t => Enclosed (p.term t).toList

/-- A test against `NULL`. -/
def Sql.Term.isNullTest : Term → Bool
  | .isNull .. => true
  | _ => false

/-- The functions that terms call have plain names. -/
theorem Sql.unsigned_function {function : String} (h : function ∈ Sql.functions) :
    Text.Unsigned function.toList := by
  have hcases : function = "LENGTH" ∨ function = "UPPER" ∨ function = "LOWER" ∨
      function = "TRIM" := by simpa [Sql.functions] using h
  rcases hcases with rfl | rfl | rfl | rfl <;> exact .word _ (by decide) (by decide)

namespace JoinTree

variable {t : JoinTree} {a : Term}

theorem balanced_aliasOf (h : Balanced t.stem.toList) (node : Nat) :
    Balanced (t.aliasOf node).toList := by
  rw [aliasOf, String.toList_append]
  exact h.append (Text.unsigned_nat node).spelled.balanced

/-- The text of a term is balanced, and a reader takes it as a whole unless the term is a test
against `NULL`. -/
def Delimited (p : Sql.Printer) (a : Term) : Prop :=
  Balanced (p.term a).toList ∧ (p.SelfDelimiting a ↔ a.isNullTest = false)

theorem balanced_separated {p : Sql.Printer} {separator : List Char} {list : List Term}
    (hseparator : Spelled separator) (h : ∀ x ∈ list, Delimited p x) :
    Balanced (separator.intercalate (list.map fun x => (p.term x).toList)) := by
  refine .intercalate hseparator fun text htext => ?_
  obtain ⟨x, hx, rfl⟩ := List.mem_map.1 htext
  exact (h x hx).1

theorem delimited_of_enclosed {p : Sql.Printer} {text : List Char} (htext : Balanced text)
    (heq : (p.term a).toList = '(' :: text ++ [')'])
    (hself : p.SelfDelimiting a = Enclosed (p.term a).toList) (hnull : a.isNullTest = false) :
    Delimited p a := by
  rw [Delimited, hself, heq]
  exact ⟨htext.between, iff_of_true htext.enclosed hnull⟩

/-- All brackets of a term are closed within it. The brackets around it enclose it, unless it is
of a kind that needs none; a test against `NULL` goes on after them. -/
theorem Forms.delimited (p : Sql.Printer) (hstem : Balanced t.stem.toList) (h : t.Forms a) :
    Delimited p a := by
  induction h with
  | literal => exact ⟨(p.dialect.spelled_literal _).balanced, iff_of_true trivial rfl⟩
  | @column node name hnode =>
    have hname : Balanced ('.' :: (p.identifier name).toList) :=
      (Spelled.inert rfl (p.spelled_identifier name)).balanced
    refine ⟨?_, iff_of_true trivial rfl⟩
    rw [p.toList_column]
    exact (balanced_aliasOf hstem node).append hname
  | @operation left right op hop _ _ hleft hright =>
    have htoken := Sql.Operator.spelled_token (Sql.Operator.ne_negative_of_isInfix hop)
    have hboth := (hleft.1.append htoken.balanced).append hright.1
    exact delimited_of_enclosed hboth (p.toList_operation left right op) rfl rfl
  | @negative operand _ ih =>
    have hsigned := ih.1.cons (c := '-') rfl (by decide) (by decide)
    exact delimited_of_enclosed hsigned (p.toList_negative operand) rfl rfl
  | @not operand _ ih =>
    have hnot := (Balanced.word "NOT " (by decide)).append ih.1
    exact delimited_of_enclosed hnot (p.toList_not operand) rfl rfl
  | @isNull operand op hop _ ih =>
    obtain ⟨rest, hrest⟩ : ∃ rest, op.token.toList = ' ' :: rest := by
      rcases hop with rfl | rfl <;> exact ⟨_, rfl⟩
    have htoken : Balanced op.token.toList := by
      rcases hop with rfl | rfl <;> exact .word _ (by decide)
    -- The operator stands after the bracket that closes the first one.
    have hgoesOn : ¬ p.SelfDelimiting (.isNull operand op) := by
      show ¬ Enclosed (p.term (.isNull operand op)).toList
      rw [p.toList_isNull, hrest]
      exact ih.1.not_enclosed ' ' rest
    refine ⟨?_, iff_of_false hgoesOn Bool.noConfusion⟩
    rw [p.toList_isNull, List.append_cons]
    exact ih.1.between.append htoken
  | @inList item list negated _ _ hitem hlist =>
    have hin : Balanced (if negated then " NOT IN " else " IN ").toList := by
      cases negated <;> exact .word _ (by decide)
    have hcomma : Spelled ", ".toList := .word _ (by decide)
    have hall := (hitem.1.append hin).append (balanced_separated hcomma hlist).between
    exact delimited_of_enclosed hall (p.toList_inList item list negated) rfl rfl
  | @like item pattern negated escaped _ _ hitem hpattern =>
    have hlike : Balanced (if negated then " NOT LIKE " else " LIKE ").toList := by
      cases negated <;> exact .word _ (by decide)
    have hescape : Balanced (if escaped then
        " ESCAPE ".toList ++ (Text.quoted '\'' "\\").toList else []) := by
      cases escaped
      · exact .nil
      · exact (Balanced.word _ (by decide)).append (Spelled.of_quoted rfl _).balanced
    have hall := ((hitem.1.append hlike).append hpattern.1).append hescape
    exact delimited_of_enclosed hall (p.toList_like item pattern negated escaped) rfl rfl
  | @concat parts _ ih =>
    have hbars : Spelled " || ".toList := .word _ (by decide)
    have hall := balanced_separated hbars ih
    exact delimited_of_enclosed hall (p.toList_concat parts) rfl rfl
  | conditional _ _ _ htest hTrue hFalse =>
    have hwhen := (Balanced.word "CASE WHEN " (by decide)).append htest.1
    have hthen := (hwhen.append (.word " THEN " (by decide))).append hTrue.1
    have helse := (hthen.append (.word " ELSE " (by decide))).append hFalse.1
    refine ⟨?_, iff_of_true trivial rfl⟩
    rw [p.toList_conditional]
    exact helse.append (.word " END" (by decide))
  | call hfunction _ ih =>
    refine ⟨?_, iff_of_true trivial rfl⟩
    rw [p.toList_call]
    exact (Sql.unsigned_function hfunction).spelled.balanced.append
      (balanced_separated (.word _ (by decide)) ih).between

end JoinTree

namespace Compiler

variable {c : Compiler} {r : Request} {q : Sql.Query} {a x : Term}

/-- What stands to the right of a comparison, an arithmetic operator, a concatenation, `LIKE` or a
minus sign is self-delimiting, unless it is a test against `NULL`. -/
theorem selfDelimiting_iff (hstem : Balanced c.aliasStem.toList) (h : c.build r = .ok q)
    (ha : q.HasPart a) (hx : x ∈ a.rightOperands) :
    c.printer.SelfDelimiting x ↔ x.isNullTest = false := by
  obtain ⟨hstems, -⟩ := builtOver_of_build h
  have hforms := operands_of_hasPart h ha x (Term.operands_of_mem_rightOperands hx)
  exact (hforms.delimited c.printer (hstems ▸ hstem)).2

/-- The number of people whose number exceeds their age by more than one. -/
def sumRequest : Request where
  model := "Person"
  select := .count
  filter := some (.lambda [⟨"p", "Person"⟩]
    (.binary .greater (.memberOf (.param "p" "Person") "Id")
      (.binary .add (.memberOf (.param "p" "Person") "Age") (.ofValue (.int 1)))))

/-- The sum to the right of the comparison is enclosed by brackets. -/
theorem selfDelimiting_iff_sum :
    let sum : Term := .operation (.column "t0" "Age") .add (.literal (.int 1))
    sample.compile sumRequest = .ok
      "SELECT COUNT(*) FROM \"people\" AS t0 WHERE t0.\"Id\" > (t0.\"Age\" + 1);" ∧
    sample.printer.SelfDelimiting sum := by
  intro sum
  obtain ⟨q, hq, hfilter⟩ : ∃ q, sample.build sumRequest = .ok q ∧
      q.filter = some (.binary (.column "t0" "Id") .greater sum false) := ⟨_, rfl, rfl⟩
  have hpart : q.HasPart (.binary (.column "t0" "Id") .greater sum false) :=
    ⟨_, List.mem_append_left _ (Option.mem_toList.2 hfilter), .self⟩
  have hstem : Balanced sample.aliasStem.toList := .word _ (by decide)
  have hsum : sum ∈ (Term.binary (.column "t0" "Id") .greater sum false).rightOperands :=
    List.mem_singleton_self sum
  exact ⟨rfl, (selfDelimiting_iff hstem hq hpart hsum).2 rfl⟩

/-- The number of people whose age is known, with the test to the right of a comparison. -/
def comparedTestRequest : Request where
  model := "Person"
  select := .count
  filter := some (.lambda [⟨"p", "Person"⟩]
    (.binary .equal (.ofValue (.bool true))
      (.memberOf (.memberOf (.param "p" "Person") "Age") "HasValue")))

/-- The test is written without brackets around it, so that the comparison is tested instead. -/
theorem selfDelimiting_fails : ∃ q a x,
    sample.build comparedTestRequest = .ok q ∧ q.HasPart a ∧ x ∈ a.rightOperands ∧
    ¬ sample.printer.SelfDelimiting x ∧
    sample.compile comparedTestRequest = .ok
      "SELECT COUNT(*) FROM \"people\" AS t0 WHERE TRUE = (t0.\"Age\") IS NOT NULL;" := by
  obtain ⟨q, hq, hfilter⟩ : ∃ q, sample.build comparedTestRequest = .ok q ∧
      q.filter = some (.binary (.literal (.bool true)) .equals
        (.isNull (.column "t0" "Age") .notEqualsNull) false) := ⟨_, rfl, rfl⟩
  have hopen : ¬ Enclosed "(t0.\"Age\") IS NOT NULL".toList := by decide
  exact ⟨q, _, _, hq, ⟨_, List.mem_append_left _ (Option.mem_toList.2 hfilter), .self⟩,
    List.mem_singleton_self _, hopen, rfl⟩

end Compiler

end PredicateSql
