import PredicateSql.Proofs.Query.Quotation
import PredicateSql.Proofs.Sql.Keywords

/-!
# Names that are keywords

* `JoinTree.Forms.finds`: the keywords that a reader finds in the text of a term are those that it
  is written with, and the names in it that stand without quotes and are keywords themselves.
* `Compiler.finds_query`: so it is for whole statements.
* `Compiler.identifiers_read_back`: a name is read back as that name, and no reader takes it for a
  keyword, unless names are written without quotes and the name is an unguarded keyword.
  `Compiler.identifiers_read_back_fails`: a table with such a name.
-/

namespace PredicateSql

open Sql (Term Printer Word keyword? keywordsIn)
open Text (Finds Separates StartsApart Whole)

/-! ### Terms -/

theorem Sql.Operator.separates_token {op : Sql.Operator} (h : op.isInfix = true) :
    Separates op.token.toList := by
  cases op <;> first | decide | cases h

theorem Sql.finds_function {function : String} (h : function ∈ Sql.functions) :
    Finds keyword? function.toList [] := by
  have hall : ∀ name ∈ Sql.functions, name.toList.all (!Text.isQuote ·) = true ∧
      (Text.words name.toList).filterMap keyword? = [] := by
    decide
  exact .word function (hall function h).1 (hall function h).2

namespace JoinTree

variable {t : JoinTree} {a : Term}

theorem finds_aliasOf (hstem : Whole t.stem.toList) (node : Nat) :
    Finds keyword? (t.aliasOf node).toList (keywordsIn (t.aliasOf node)) := by
  refine ⟨?_, rfl⟩
  rw [aliasOf, String.toList_append]
  exact hstem.append (Text.unsigned_nat node).spelled.balanced.whole

/-- The keywords in the text of a term are those of the words that it is written with. -/
theorem Forms.finds (p : Printer) (hstem : Whole t.stem.toList) (h : t.Forms a) :
    Finds keyword? (p.term a).toList ((p.termWords a).flatMap p.readAs) := by
  -- One case for each kind of term. Blanks and brackets keep the words of the operands apart.
  induction h with
  | literal => exact Sql.Dialect.finds_literal p _
  | @column node name hnode =>
    have halias := finds_aliasOf hstem node
    have hname := halias.separated Sql.finds_point (by decide) (p.finds_identifier name)
    rw [p.toList_column, List.append_cons]
    exact hname.congr (by simp [Printer.termWords])
  | @operation left right op hop _ _ hleft hright =>
    have htoken := Sql.Operator.finds_token p op
    have hboth := hleft.separated htoken (Sql.Operator.separates_token hop) hright
    rw [p.toList_operation]
    exact hboth.between.congr (by simp [Printer.termWords])
  | negative _ ih =>
    have hminus : Finds keyword? "-".toList [] := .word _ (by decide) (by decide)
    rw [p.toList_negative]
    exact (hminus.after (by decide) ih).between
  | not _ ih =>
    have hnot : Finds keyword? "NOT ".toList ["NOT"] := .word _ (by decide) (by decide)
    rw [p.toList_not]
    exact (hnot.after (by decide) ih).between
  | @isNull operand op hop _ ih =>
    have htoken := Sql.Operator.finds_token p op
    have hapart : StartsApart op.token.toList := by
      rcases hop with rfl | rfl <;> decide
    rw [p.toList_isNull, List.append_cons]
    exact (ih.between.before hapart htoken).congr (by simp [Printer.termWords])
  | @inList item list negated _ _ hitem hlist =>
    have hin : Finds keyword? (if negated then " NOT IN " else " IN ").toList
        ((if negated then ["NOT"] else []) ++ ["IN"]) := by
      cases negated <;> exact .word _ (by decide) (by decide)
    have hapart : Separates (if negated then " NOT IN " else " IN ").toList := by
      cases negated <;> decide
    have hitems := (Finds.intercalate Sql.finds_comma (by decide) hlist).between
    rw [p.toList_inList]
    refine (hitem.separated hin hapart hitems).between.congr ?_
    cases negated <;> simp [Printer.termWords, p.termsWords_eq_flatMap, List.flatMap_assoc]
  | @like item pattern negated escaped _ _ hitem hpattern =>
    have hlike : Finds keyword? (if negated then " NOT LIKE " else " LIKE ").toList
        ((if negated then ["NOT"] else []) ++ ["LIKE"]) := by
      cases negated <;> exact .word _ (by decide) (by decide)
    have hapart : Separates (if negated then " NOT LIKE " else " LIKE ").toList := by
      cases negated <;> decide
    have hescape : Finds keyword? (if escaped then
        " ESCAPE ".toList ++ (Text.quoted '\'' "\\").toList else [])
        (if escaped then ["ESCAPE"] else []) := by
      cases escaped with
      | false => exact .nil
      | true =>
        have hword : Finds keyword? " ESCAPE ".toList ["ESCAPE"] := .word _ (by decide) (by decide)
        exact hword.after (by decide) (.quoted rfl _)
    have hstart : StartsApart (if escaped then
        " ESCAPE ".toList ++ (Text.quoted '\'' "\\").toList else []) := by
      cases escaped <;> decide
    rw [p.toList_like]
    refine ((hitem.separated hlike hapart hpattern).before hstart hescape).between.congr ?_
    cases negated <;> cases escaped <;> simp [Printer.termWords]
  | concat _ ih =>
    have hbars : Finds keyword? " || ".toList [] := .word _ (by decide) (by decide)
    rw [p.toList_concat]
    exact (Finds.intercalate hbars (by decide) ih).between.congr
      (by rw [Printer.termWords, p.termsWords_eq_flatMap, List.flatMap_assoc])
  | conditional _ _ _ htest hTrue hFalse =>
    have hword : Finds keyword? "CASE WHEN ".toList ["CASE", "WHEN"] :=
      .word _ (by decide) (by decide)
    have hthen : Finds keyword? " THEN ".toList ["THEN"] := .word _ (by decide) (by decide)
    have helse : Finds keyword? " ELSE ".toList ["ELSE"] := .word _ (by decide) (by decide)
    have hend : Finds keyword? " END".toList ["END"] := .word _ (by decide) (by decide)
    have hbranches := ((hword.after (by decide) htest).separated hthen (by decide) hTrue).separated
      helse (by decide) hFalse
    rw [p.toList_conditional]
    exact (hbranches.before (by decide) hend).congr (by simp [Printer.termWords])
  | call hfunction _ ih =>
    have hargs := (Finds.intercalate Sql.finds_comma (by decide) ih).between
    rw [p.toList_call]
    exact ((Sql.finds_function hfunction).before (Text.startsApart_cons rfl) hargs).congr
      (by rw [Printer.termWords, p.termsWords_eq_flatMap, List.flatMap_assoc, List.nil_append])

/-- It does not matter to keywords whether an operator stands between parentheses. -/
theorem Forms.finds_unparenthesized (p : Printer) (hstem : Whole t.stem.toList) (h : t.Forms a) :
    Finds keyword? (p.term a.unparenthesized).toList ((p.termWords a).flatMap p.readAs) := by
  by_cases hsame : a.unparenthesized = a
  · rw [hsame]
    exact h.finds p hstem
  · cases h with
    | @operation left right op hop hleft hright =>
      have htoken := Sql.Operator.finds_token p op
      have hboth := (hleft.finds p hstem).separated htoken (Sql.Operator.separates_token hop)
        (hright.finds p hstem)
      rw [Term.unparenthesized, p.toList_unparenthesized]
      exact hboth.congr (by simp [Printer.termWords])
    | _ => exact absurd rfl hsame

end JoinTree

/-! ### Clauses -/

namespace Compiler

variable {c : Compiler} {r : Request} {q : Sql.Query}

section Clauses

variable {t : JoinTree} (hstem : Whole t.stem.toList) (hq : q.BuiltOver t) (p : Printer)

include hstem hq

theorem finds_projection :
    Finds keyword? (p.projection q.projection).toList
      ((Printer.projectionWords q.projection).flatMap p.readAs) := by
  have hprojects := hq.projection
  cases hprojection : q.projection with
  | columns columns =>
    have hcolumns : ∀ x ∈ columns, Finds keyword? (p.selectColumn x).toList
        ((Printer.columnWords x).flatMap p.readAs) := by
      intro x hx
      obtain ⟨node, hnode⟩ := hprojects columns hprojection x hx
      refine p.finds_selectColumn ?_
      rw [hnode]
      exact JoinTree.finds_aliasOf hstem node
    rw [Printer.projection, String.toList_intercalate, List.map_map, Printer.projectionWords,
      List.flatMap_assoc]
    exact Finds.intercalate Sql.finds_comma (by decide) hcolumns
  | count => exact .word "COUNT(*)" (by decide) rfl
  | one => exact .word "1" (by decide) rfl

theorem finds_joins :
    StartsApart (String.join (q.joins.map p.join)).toList ∧
      Finds keyword? (String.join (q.joins.map p.join)).toList
        ((q.joins.flatMap Printer.joinWords).flatMap p.readAs) := by
  rw [String.toList_join, List.flatMap_map, List.flatMap_assoc]
  refine Finds.flatMap fun j hj => ?_
  rw [hq.joins] at hj
  obtain ⟨⟨b, node⟩, -, rfl⟩ := List.mem_map.1 hj
  exact p.finds_join (JoinTree.finds_aliasOf hstem node) (JoinTree.finds_aliasOf hstem b.parent)

theorem finds_filter :
    let clause := (match q.filter with
      | none => ""
      | some filter => " WHERE " ++ p.term filter).toList
    StartsApart clause ∧ Finds keyword? clause
      ((q.filter.toList.flatMap fun f => .keyword "WHERE" :: p.termWords f).flatMap p.readAs) := by
  intro clause
  unfold clause
  cases hfilter : q.filter with
  | none => exact ⟨.nil, .nil⟩
  | some f =>
    have hwhere : Finds keyword? " WHERE ".toList ["WHERE"] := .word _ (by decide) rfl
    obtain ⟨a, ha, rfl⟩ := hq.filter f hfilter
    simp only [String.toList_append]
    refine ⟨StartsApart.append_of_ne_nil (by decide) (by decide), ?_⟩
    exact (hwhere.after (by decide) (ha.finds_unparenthesized p hstem)).congr
      (by simp [Printer.termWords_unparenthesized])

theorem finds_order :
    let clause := (if q.order.isEmpty then ""
      else " ORDER BY " ++ ", ".intercalate (q.order.map p.orderBy)).toList
    StartsApart clause ∧ Finds keyword? clause
      ((if q.order.isEmpty then []
        else [.keyword "ORDER", .keyword "BY"] ++ q.order.flatMap p.orderWords).flatMap
          p.readAs) := by
  intro clause
  have heach : ∀ o ∈ q.order, Finds keyword? (p.orderBy o).toList
      ((p.orderWords o).flatMap p.readAs) := by
    intro o ho
    have hdirection : Finds keyword? (if o.descending then " DESC" else " ASC").toList
        [if o.descending then "DESC" else "ASC"] := by
      split <;> exact .word _ (by decide) rfl
    have hapart : StartsApart (if o.descending then " DESC" else " ASC").toList := by
      split <;> decide
    rw [Printer.orderBy_eq, String.toList_append]
    exact (((hq.order o ho).finds p hstem).before hapart hdirection).congr
      (by simp [Printer.orderWords])
  unfold clause
  split
  · exact ⟨.nil, .nil⟩
  · have horder : Finds keyword? " ORDER BY ".toList ["ORDER", "BY"] := .word _ (by decide) rfl
    have hkeys := Finds.intercalate Sql.finds_comma (by decide) heach
    rw [String.toList_append, String.toList_intercalate, List.map_map]
    refine ⟨StartsApart.append_of_ne_nil (by decide) (by decide), ?_⟩
    exact (horder.after (by decide) hkeys).congr (by simp [List.flatMap_assoc])

/-- The keywords that a reader finds in a statement are those of the words that it is written
with. -/
theorem finds_query :
    Finds keyword? (p.query q).toList ((p.queryWords q).flatMap p.readAs) := by
  have hname : Finds keyword? q.aliasName.toList (keywordsIn q.aliasName) := by
    rw [hq.aliasName]
    exact JoinTree.finds_aliasOf hstem 0
  have hselect : Finds keyword? "SELECT ".toList ["SELECT"] := .word _ (by decide) rfl
  have hfrom : Finds keyword? " FROM ".toList ["FROM"] := .word _ (by decide) rfl
  have has : Finds keyword? " AS ".toList ["AS"] := .word _ (by decide) rfl
  obtain ⟨hstartJoins, hjoins⟩ := finds_joins hstem hq p
  obtain ⟨hstartFilter, hfilter⟩ := finds_filter hstem hq p
  obtain ⟨hstartOrder, horder⟩ := finds_order hstem hq p
  obtain ⟨hstartEnding, hending⟩ := Sql.Dialect.finds_ending p q.limit q.offset p.terminate
  -- The clauses in the order in which they are written.
  have hprojection := hselect.after (by decide) (finds_projection hstem hq p)
  have htable := hprojection.separated hfrom (by decide) (p.finds_identifier q.table)
  have htables := (htable.separated has (by decide) hname).before hstartJoins hjoins
  have hclauses := (htables.before hstartFilter hfilter).before hstartOrder horder
  rw [Printer.query_eq]
  simp only [String.toList_append]
  exact (hclauses.before hstartEnding hending).congr (by simp [Printer.queryWords])

end Clauses

/-! ### Statements -/

/-- A name is written between quotes, from which a reader takes it as it was, or it is written as it
is, in lower case. In the second form it is a keyword if it is an unguarded one. In a statement, a
reader finds the keywords that were written as such and no others, unless some name is an unguarded
keyword and names are not all quoted. -/
theorem identifiers_read_back (c : Compiler) (name : String) :
    (Text.read? (c.printer.identifier name) = some [.quoted '"' name] ∨
      c.printer.identifier name = name ∧ Sql.isPlain name.toList = true) ∧
    (∀ k, c.printer.identifier name = name ∧ keyword? name.toList = some k ↔
      c.printer.quoteIdentifiers = false ∧ k ∈ Sql.unguarded ∧ name = Text.toLowerAscii k) ∧
    ∀ r text, Whole c.aliasStem.toList → c.compile r = .ok text → ∃ q, c.build r = .ok q ∧
      keywordsIn text = (c.printer.queryWords q).flatMap c.printer.readAs ∧
      (keywordsIn text = (c.printer.queryWords q).filterMap Word.keyword? ↔
        ∀ k ∈ Sql.unguarded, .name (Text.toLowerAscii k) ∈ c.printer.queryWords q →
          c.printer.quoteIdentifiers = true) := by
  refine ⟨?_, fun k => c.printer.keyword?_identifier_iff, fun r text hstem h => ?_⟩
  · rcases c.printer.identifier_cases name with hquoted | ⟨hname, -, hplain, -⟩
    · refine .inl ?_
      have hend : ([] : List Char).head? ≠ some '"' := by decide
      rw [hquoted, Text.read?, ← List.append_nil (Text.quoted '"' name).toList,
        Text.Position.read?_quoted name rfl hend]
      rfl
    · exact .inr ⟨hname, hplain⟩
  · obtain ⟨q, hq, rfl⟩ := compile_eq_ok h
    obtain ⟨hstems, hbuilt⟩ := builtOver_of_build hq
    have hfound := (finds_query (hstems ▸ hstem) hbuilt c.printer).picked
    refine ⟨q, hq, hfound, ?_⟩
    rw [keywordsIn, hfound, c.printer.flatMap_readAs_eq_iff]
    constructor
    · intro hnone k hk hmem
      by_contra hquote
      refine (c.printer.readAs_name_ne_nil_iff).2 ⟨by simpa using hquote, k, hk, rfl⟩ ?_
      exact hnone _ hmem
    · intro hnames name hmem
      by_contra hread
      obtain ⟨hquote, k, hk, rfl⟩ := (c.printer.readAs_name_ne_nil_iff).1 hread
      exact Bool.false_ne_true (hquote.symm.trans (hnames k hk hmem))

/-- A compiler for queries over people that leaves names without quotes. -/
def unquotedSample : Compiler where
  context := sample.context
  printer := { quoteIdentifiers := false }

/-- The request for the number of people. -/
def countRequest : Request where
  model := "Person"
  select := .count

/-- A table whose name is no keyword can stand without quotes. -/
theorem identifiers_read_back_people : ∃ text q,
    unquotedSample.compile countRequest = .ok text ∧ text = "SELECT COUNT(*) FROM people AS t0;" ∧
    unquotedSample.build countRequest = .ok q ∧
    keywordsIn text = (unquotedSample.printer.queryWords q).filterMap Word.keyword? := by
  have hstem : Finds keyword? "t".toList [] := .word _ (by decide) rfl
  obtain ⟨text, htext, hsql⟩ : ∃ text, unquotedSample.compile countRequest = .ok text ∧
      text = "SELECT COUNT(*) FROM people AS t0;" := ⟨_, rfl, rfl⟩
  obtain ⟨q, hq, -, hiff⟩ :=
    (identifiers_read_back unquotedSample "people").2.2 countRequest text hstem.whole htext
  refine ⟨text, q, htext, hsql, hq, hiff.2 ?_⟩
  obtain ⟨q', hq', hwords⟩ : ∃ q', unquotedSample.build countRequest = .ok q' ∧
      unquotedSample.printer.queryWords q' =
        [.keyword "SELECT", .keyword "FROM", .name "people", .keyword "AS"] := ⟨_, rfl, rfl⟩
  obtain rfl : q' = q := Except.ok.inj (hq'.symm.trans hq)
  rw [hwords]
  decide

/-- A compiler that leaves names without quotes, and a model whose table has the name of a join. -/
def sides : Compiler where
  context := {
    catalog := ⟨[{
      name := "Left"
      table := some "left"
      properties := [{ name := "Id", type := .int }] }], List.pairwise_singleton _ _⟩
    evaluator := default }
  printer := { quoteIdentifiers := false }

/-- The name of the table stands without quotes, and it is a keyword. -/
theorem identifiers_read_back_fails : ∃ text,
    sides.compile { model := "Left", select := .count } = .ok text ∧
    text = "SELECT COUNT(*) FROM left AS t0;" ∧
    keywordsIn text = ["SELECT", "FROM", "LEFT", "AS"] ∧
    sides.printer.identifier "left" = "left" ∧ keyword? "left".toList = some "LEFT" := by
  refine ⟨_, rfl, rfl, ?_, by decide, by decide⟩
  decide

end Compiler

end PredicateSql
