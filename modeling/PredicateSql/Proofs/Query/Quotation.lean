import PredicateSql.Proofs.Query.Comments
import PredicateSql.Proofs.Sql.Quotation

/-!
# Reading statements back

* `JoinTree.Forms.quoting`: the text of a term quotes its strings, dates, blobs and names, in the
  order in which they stand in it, and nothing else.
* `Compiler.quoting_query`: so do whole statements.
* `Compiler.read_compile`: a reader of a statement finds these texts as they were, whatever
  characters they hold.
-/

namespace PredicateSql

open Sql (Term Printer)
open Text (Bare Quoting Piece StartsBare)

/-! ### Terms -/

theorem Sql.Operator.bare_token (op : Sql.Operator) : Bare op.token.toList := by
  cases op <;> exact Bare.word _ (by decide)

theorem Sql.Operator.token_ne_nil {op : Sql.Operator} (h : op.isInfix = true) :
    op.token.toList ≠ [] := by
  cases op <;> first | decide | cases h

theorem Sql.bare_function {function : String} (h : function ∈ Sql.functions) :
    Bare function.toList := by
  have hall : ∀ name ∈ Sql.functions, name.toList.all Text.isBare = true := by decide
  exact Bare.word _ (hall function h)

namespace JoinTree

variable {t : JoinTree} {a : Term}

theorem bare_aliasOf (hstem : Sql.isPlain t.stem.toList = true) (node : Nat) :
    Bare (t.aliasOf node).toList := by
  rw [aliasOf, String.toList_append]
  exact (Sql.bare_of_isPlain hstem).append (Text.numerals_nat node).bare

/-- A term quotes what its strings and names are, in their order. -/
theorem Forms.quoting (p : Printer) (hstem : Sql.isPlain t.stem.toList = true) (h : t.Forms a) :
    Quoting (p.term a).toList (p.termQuotes a) := by
  have hcomma : Bare ", ".toList := .word _ (by decide)
  -- One case for each kind of term. A bare word separates the operands wherever there are several.
  induction h with
  | literal => exact p.dialect.quoting_literal _
  | @column node name hnode =>
    rw [p.toList_column, List.append_cons]
    exact .after ((bare_aliasOf hstem node).append (.word "." (by decide)))
      (p.quoting_identifier name)
  | @operation left right op hop _ _ hleft hright =>
    rw [p.toList_operation, Printer.termQuotes]
    exact (hleft.separated op.bare_token (Sql.Operator.token_ne_nil hop) hright).between
  | negative _ ih =>
    rw [p.toList_negative]
    exact (Quoting.bare rfl ih).between
  | not _ ih =>
    rw [p.toList_not]
    exact (Quoting.after (.word _ (by decide)) ih).between
  | @isNull operand op hop _ ih =>
    rw [p.toList_isNull, List.append_cons]
    exact ih.between.before op.bare_token
  | @inList item list negated _ _ hitem hlist =>
    have hin : Bare (if negated then " NOT IN " else " IN ").toList := by
      cases negated <;> exact .word _ (by decide)
    have hne : (if negated then " NOT IN " else " IN ").toList ≠ [] := by
      cases negated <;> decide
    rw [p.toList_inList, Printer.termQuotes, Printer.termsQuotes_eq_flatMap]
    exact (hitem.separated hin hne (Quoting.intercalate hcomma (by decide) hlist).between).between
  | @like item pattern negated escaped _ _ hitem hpattern =>
    have hlike : Bare (if negated then " NOT LIKE " else " LIKE ").toList := by
      cases negated <;> exact .word _ (by decide)
    have hne : (if negated then " NOT LIKE " else " LIKE ").toList ≠ [] := by
      cases negated <;> decide
    have hpair := hitem.separated hlike hne hpattern
    rw [p.toList_like, Printer.termQuotes]
    cases escaped with
    | false => exact (hpair.append .nil .nil).between
    | true =>
      have hquoted : Quoting (Text.quoted '\'' "\\").toList [('\'', "\\")] := .of_quoted rfl _
      have hescape := hpair.separated (.word " ESCAPE " (by decide)) (by decide) hquoted
      rw [List.append_assoc] at hescape
      exact hescape.between
  | concat _ ih =>
    rw [p.toList_concat, Printer.termQuotes, Printer.termsQuotes_eq_flatMap]
    exact (Quoting.intercalate (.word " || " (by decide)) (by decide) ih).between
  | conditional _ _ _ htest hTrue hFalse =>
    have hwhen := Quoting.after (.word "CASE WHEN " (by decide)) htest
    have hthen := hwhen.separated (.word " THEN " (by decide)) (by decide) hTrue
    have helse := hthen.separated (.word " ELSE " (by decide)) (by decide) hFalse
    rw [p.toList_conditional, Printer.termQuotes]
    exact helse.before (.word " END" (by decide))
  | call hfunction _ ih =>
    rw [p.toList_call, Printer.termQuotes, Printer.termsQuotes_eq_flatMap]
    exact .after (Sql.bare_function hfunction)
      (Quoting.intercalate hcomma (by decide) ih).between

/-- It does not matter to quotes whether an operator stands between parentheses. -/
theorem Forms.quoting_unparenthesized (p : Printer) (hstem : Sql.isPlain t.stem.toList = true)
    (h : t.Forms a) : Quoting (p.term a.unparenthesized).toList (p.termQuotes a) := by
  by_cases hsame : a.unparenthesized = a
  · rw [hsame]
    exact h.quoting p hstem
  · cases h with
    | @operation left right op hop hleft hright =>
      rw [Term.unparenthesized, p.toList_unparenthesized, Printer.termQuotes]
      exact (hleft.quoting p hstem).separated op.bare_token (Sql.Operator.token_ne_nil hop)
        (hright.quoting p hstem)
    | _ => exact absurd rfl hsame

end JoinTree

namespace Compiler

variable {c : Compiler} {r : Request} {q : Sql.Query} {text : String}

/-! ### The clauses of a statement -/

section Clauses

variable {t : JoinTree} (hstem : Sql.isPlain t.stem.toList = true) (hq : q.BuiltOver t)
  (p : Printer)

include hstem hq

theorem quoting_projection :
    Quoting (p.projection q.projection).toList (p.projectionQuotes q.projection) := by
  have hprojects := hq.projection
  cases hprojection : q.projection with
  | columns columns =>
    have hcolumns : ∀ x ∈ columns, Quoting (p.selectColumn x).toList (p.columnQuotes x) := by
      intro x hx
      obtain ⟨node, hnode⟩ := hprojects columns hprojection x hx
      refine Printer.quoting_selectColumn ?_
      rw [hnode]
      exact JoinTree.bare_aliasOf hstem node
    rw [Printer.projection, String.toList_intercalate, List.map_map]
    exact Quoting.intercalate (.word ", " (by decide)) (by decide) hcolumns
  | count => exact .of_bare (.word "COUNT(*)" (by decide))
  | one => exact .of_bare (.word "1" (by decide))

/-- Each join starts with a blank, so none runs into the name before it. -/
theorem quoting_joins :
    StartsBare (String.join (q.joins.map p.join)).toList ∧
      Quoting (String.join (q.joins.map p.join)).toList (q.joins.flatMap p.joinQuotes) := by
  rw [String.toList_join, List.flatMap_map]
  refine Quoting.flatMap fun j hj => ?_
  rw [hq.joins] at hj
  obtain ⟨⟨b, node⟩, -, rfl⟩ := List.mem_map.1 hj
  exact Printer.quoting_join (JoinTree.bare_aliasOf hstem node)
    (JoinTree.bare_aliasOf hstem b.parent)

theorem quoting_filter :
    let clause := (match q.filter with
      | none => ""
      | some filter => " WHERE " ++ p.term filter).toList
    StartsBare clause ∧ Quoting clause (q.filter.toList.flatMap p.termQuotes) := by
  intro clause
  unfold clause
  cases hfilter : q.filter with
  | none => exact ⟨.nil, .nil⟩
  | some f =>
    have hwhere : Bare " WHERE ".toList := .word _ (by decide)
    obtain ⟨a, ha, rfl⟩ := hq.filter f hfilter
    simp only [String.toList_append, Option.toList_some, List.flatMap_singleton]
    rw [Printer.termQuotes_unparenthesized]
    exact ⟨hwhere.startsBare_append (by decide), .after hwhere (ha.quoting_unparenthesized p hstem)⟩

theorem quoting_order :
    let clause := (if q.order.isEmpty then ""
      else " ORDER BY " ++ ", ".intercalate (q.order.map p.orderBy)).toList
    StartsBare clause ∧ Quoting clause (q.order.flatMap fun o => p.termQuotes o.key) := by
  intro clause
  have heach : ∀ o ∈ q.order, Quoting (p.orderBy o).toList (p.termQuotes o.key) := by
    intro o ho
    have hdirection : Bare (if o.descending then " DESC" else " ASC").toList := by
      split <;> exact .word _ (by decide)
    rw [Printer.orderBy_eq, String.toList_append]
    exact ((hq.order o ho).quoting p hstem).before hdirection
  unfold clause
  split
  · next hempty =>
    rw [List.isEmpty_iff.1 hempty]
    exact ⟨.nil, .nil⟩
  · have horder : Bare " ORDER BY ".toList := .word _ (by decide)
    rw [String.toList_append, String.toList_intercalate, List.map_map]
    exact ⟨horder.startsBare_append (by decide),
      .after horder (.intercalate (.word ", " (by decide)) (by decide) heach)⟩

/-- A statement quotes the texts of its query, and it ends with its only semicolon, if any. -/
theorem quoting_query :
    ∃ body, (p.query q).toList = body ++ (if p.terminate then [';'] else []) ∧
      Quoting body (p.queryQuotes q) := by
  have hname : Bare q.aliasName.toList := by
    rw [hq.aliasName]
    exact JoinTree.bare_aliasOf hstem 0
  obtain ⟨hstartJoins, hjoins⟩ := quoting_joins hstem hq p
  obtain ⟨hstartFilter, hfilter⟩ := quoting_filter hstem hq p
  obtain ⟨hstartOrder, horder⟩ := quoting_order hstem hq p
  -- The clauses in the order in which they are written.
  have hselect := Quoting.after (.word "SELECT " (by decide)) (quoting_projection hstem hq p)
  have hfrom := hselect.separated (.word " FROM " (by decide)) (by decide)
    (p.quoting_identifier q.table)
  have has := (hfrom.before (.word " AS " (by decide))).before hname
  have hwhere := (has.append hstartJoins hjoins).append hstartFilter hfilter
  have hall := (hwhere.append hstartOrder horder).before (p.dialect.bare_ending q.limit q.offset)
  refine ⟨_, ?_, hall⟩
  rw [Printer.query_eq]
  rw [Sql.Dialect.ending_eq]
  simp only [String.toList_append, List.append_assoc]
  cases p.terminate <;> rfl

end Clauses

/-! ### Statements -/

/-- What a reader takes from a statement, character by character and with two quotes in a row for
one, are the strings, dates, blobs, names and labels of its query, in their order and as they were.
It ends outside of quotes. The only semicolon there is the last character, if the statement is to be
terminated. Nothing is escaped but quotes, in both dialects. -/
theorem read_compile (hstem : Sql.isPlain c.aliasStem.toList = true) (h : c.compile r = .ok text) :
    ∃ q pieces, c.build r = .ok q ∧
      Text.read? text = some (pieces ++ if c.printer.terminate then [.plain ';'] else []) ∧
      .plain ';' ∉ pieces ∧
      pieces.filterMap Piece.quoted? = c.printer.queryQuotes q ∧
      ∀ s, q.HasPart (.text s) → .quoted '\'' s ∈ pieces := by
  obtain ⟨q, hq, rfl⟩ := compile_eq_ok h
  obtain ⟨hstems, hbuilt⟩ := builtOver_of_build hq
  obtain ⟨body, htext, hbody⟩ := quoting_query (hstems ▸ hstem) hbuilt c.printer
  obtain ⟨pieces, hread, hquotes, hend⟩ := hbody.read
  refine ⟨q, pieces, hq, ?_, hend, hquotes, fun s hs => ?_⟩
  · rw [Text.read?, htext]
    cases c.printer.terminate with
    | false => exact hread [] .nil
    | true =>
      have hstart : StartsBare [';'] := by
        rintro _ ⟨⟩
        rfl
      exact hread [';'] hstart
  · have hmem := Printer.mem_queryQuotes_of_hasPart (p := c.printer) hs
    rw [← hquotes, List.mem_filterMap] at hmem
    obtain ⟨piece, hpiece, heq⟩ := hmem
    cases piece with
    | plain => cases heq
    | quoted quote text =>
      cases heq
      exact hpiece

/-- Customers in a table whose name has a quote in it. -/
def customers : Compiler where
  context := {
    catalog := ⟨[{
      name := "Customer"
      table := some "cust\"omers"
      properties := [{ name := "Id", type := .int }, { name := "Name", type := .string }] }],
      List.pairwise_singleton _ _⟩
    evaluator := default }

/-- The customers with a name that tries to end its quotes and the statement. -/
def breakoutRequest : Request where
  model := "Customer"
  filter := some (.lambda [⟨"c", "Customer"⟩]
    (.binary .equal (.memberOf (.param "c" "Customer") "Name")
      (.constant .string (.string "\\'; DROP --"))))

/-- The name stays one string in the statement. -/
theorem read_compile_breakout :
    ∃ text pieces, customers.compile breakoutRequest = .ok text ∧
      Text.read? text = some (pieces ++ [.plain ';']) ∧ .plain ';' ∉ pieces ∧
      .quoted '\'' "\\'; DROP --" ∈ pieces := by
  have hplain : Sql.isPlain customers.aliasStem.toList = true := by decide
  obtain ⟨text, htext⟩ : ∃ text, customers.compile breakoutRequest = .ok text := ⟨_, rfl⟩
  obtain ⟨q, pieces, hq, hread, hend, -, hstrings⟩ := read_compile hplain htext
  have hpart : q.HasPart (.text "\\'; DROP --") := by
    obtain ⟨q', hq', hfilter⟩ : ∃ q', customers.build breakoutRequest = .ok q' ∧
        q'.filter = some (.binary (.column "t0" "Name") .equals (.text "\\'; DROP --") false) :=
      ⟨_, rfl, rfl⟩
    obtain rfl : q' = q := Except.ok.inj (hq'.symm.trans hq)
    exact ⟨_, List.mem_append_left _ (Option.mem_toList.2 hfilter),
      .operand (List.mem_cons_of_mem _ List.mem_cons_self) .self⟩
  exact ⟨text, pieces, htext, hread, hend, hstrings _ hpart⟩

end Compiler

end PredicateSql
