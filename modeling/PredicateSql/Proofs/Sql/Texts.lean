import PredicateSql.Proofs.Sql.Printer
import PredicateSql.Proofs.Text.Lines

/-!
# The texts in statements

What a statement is written from are names, labels, aliases and strings, besides its own words and
numbers.

* `Term.texts`, `Query.texts`: these texts, as they stand in the query.
* `Printer.hasBreak_term`, `Printer.hasBreak_query`: a statement has a line break in it if and only
  if one of them has. Nothing else breaks a line, and nothing is escaped.
-/

namespace PredicateSql.Sql

open Text (HasBreak HaveBreak hasBreak_append haveBreak_append haveBreak_cons haveBreak_nil)

/-! ### Texts -/

/-- The text that a literal is written from. -/
def literalTexts : Value → List String
  | .string s => [s]
  | _ => []

mutual

/-- The texts that a term is written from. -/
def Term.texts : Term → List String
  | .literal value => literalTexts value
  | .column table name => [table, name]
  | .binary left _ right _ => left.texts ++ right.texts
  | .negative operand | .not operand | .isNull operand _ => operand.texts
  | .inList item list _ => item.texts ++ textsOfAll list
  | .like item pattern _ _ => item.texts ++ pattern.texts
  | .concat parts => textsOfAll parts
  | .conditional test ifTrue ifFalse => test.texts ++ ifTrue.texts ++ ifFalse.texts
  | .call function args => function :: textsOfAll args

/-- The texts that some terms are written from. -/
def textsOfAll : List Term → List String
  | [] => []
  | t :: rest => t.texts ++ textsOfAll rest

end

/-- The texts that a projected column is written from. -/
def SelectColumn.texts (c : SelectColumn) : List String :=
  c.table :: c.name :: c.label.toList

/-- The texts that a projection is written from. -/
def Projection.texts : Projection → List String
  | .columns list => list.flatMap SelectColumn.texts
  | .count | .one => []

/-- The texts that a join is written from. -/
def Join.texts (j : Join) : List String :=
  [j.table, j.aliasName, j.key, j.parentAlias, j.foreignKey]

/-- The texts that a statement is written from. -/
def Query.texts (q : Query) : List String :=
  q.projection.texts ++ [q.table, q.aliasName] ++ q.joins.flatMap Join.texts ++
    q.filter.toList.flatMap Term.texts ++ q.order.flatMap fun o => o.key.texts

/-! ### Literals and names -/

theorem Dialect.hasBreak_literal (dialect : Dialect) (v : Value) :
    HasBreak (dialect.literal v) ↔ HaveBreak (literalTexts v) := by
  have hquoted : ∀ s, HasBreak (Text.quoted '\'' s) ↔ HasBreak s :=
    Text.hasBreak_quoted (by decide)
  cases v with
  | bool b => cases dialect <;> cases b <;> simp [literal, literalTexts, HasBreak]
  | string s => simp [literal, literalTexts, hquoted]
  | date d =>
    have hword : ¬ HasBreak "DATE " := by decide
    rw [literal_date]
    cases dialect <;> simp [literalTexts, hquoted, hword]
  | dateTime t =>
    have hword : ¬ HasBreak "TIMESTAMP " := by decide
    rw [literal_dateTime]
    cases dialect <;> simp [literalTexts, hquoted, hword]
  | bytes b =>
    have hlower := Text.not_hasBreak_hexOfBytes (.inl rfl) b
    have hupper := Text.not_hasBreak_hexOfBytes (.inr rfl) b
    have hwords : ¬ HasBreak "\\x" ∧ ¬ HasBreak "::bytea" ∧ ¬ HasBreak "X" := by decide
    rw [literal_bytes]
    cases dialect <;> simp [literalTexts, hquoted, hlower, hupper, hwords]
  | null | list | record => simp [literal, literalTexts, HasBreak]
  | _ => simp [literal, literalTexts]

theorem Operator.not_hasBreak_token (op : Operator) : ¬ HasBreak op.token := by
  cases op <;> decide

/-- No word that terms are written with breaks a line. -/
theorem not_hasBreak_termWords :
    ¬ HasBreak "" ∧ ¬ HasBreak " " ∧ ¬ HasBreak "." ∧ ¬ HasBreak "(" ∧ ¬ HasBreak ")" ∧
      ¬ HasBreak "(NOT " ∧ ¬ HasBreak " NOT " ∧ ¬ HasBreak "IN (" ∧ ¬ HasBreak "))" ∧
      ¬ HasBreak "LIKE " ∧ ¬ HasBreak " ESCAPE '\\'" ∧ ¬ HasBreak "CASE WHEN " ∧
      ¬ HasBreak " THEN " ∧ ¬ HasBreak " ELSE " ∧ ¬ HasBreak " END" := by
  decide

/-- No word that clauses are written with breaks a line. -/
theorem not_hasBreak_clauseWords :
    ¬ HasBreak "SELECT " ∧ ¬ HasBreak " AS " ∧ ¬ HasBreak " FROM " ∧ ¬ HasBreak " LEFT JOIN " ∧
      ¬ HasBreak " ON " ∧ ¬ HasBreak " = " ∧ ¬ HasBreak " WHERE " ∧ ¬ HasBreak " ORDER BY " ∧
      ¬ HasBreak " ASC" ∧ ¬ HasBreak " DESC" ∧ ¬ HasBreak "COUNT(*)" ∧ ¬ HasBreak "1" ∧
      ¬ HasBreak ";" := by
  decide

namespace Printer

variable (p : Printer)

/-- Quotes around a name hide no line break in it. -/
theorem hasBreak_identifier (name : String) : HasBreak (p.identifier name) ↔ HasBreak name := by
  unfold identifier
  split
  · exact Text.hasBreak_quoted (by decide) name
  · exact Iff.rfl

/-! ### Terms -/

mutual

/-- A term breaks a line where one of its texts does. -/
theorem hasBreak_term : (t : Term) → (HasBreak (p.term t) ↔ HaveBreak t.texts)
  | .literal value => p.dialect.hasBreak_literal value
  | .column table name => by
    simp [term_column, Term.texts, hasBreak_identifier, not_hasBreak_termWords]
  | .binary left op right parenthesized => by
    have hop := op.not_hasBreak_token
    have hleft := hasBreak_term left
    have hright := hasBreak_term right
    cases parenthesized <;> simp [term_binary, Term.texts, not_hasBreak_termWords, hop, hleft, hright]
  | .negative operand => by
    have hop := Operator.not_hasBreak_token .negative
    have hoperand := hasBreak_term operand
    simp [term_negative, Term.texts, not_hasBreak_termWords, hop, hoperand]
  | .not operand => by
    have hoperand := hasBreak_term operand
    simp [term_not, Term.texts, not_hasBreak_termWords, hoperand]
  | .isNull operand op => by
    have hop := op.not_hasBreak_token
    have hoperand := hasBreak_term operand
    simp [term_isNull, Term.texts, not_hasBreak_termWords, hop, hoperand]
  | .inList item list negated => by
    have hitem := hasBreak_term item
    have hlist : HasBreak (", ".intercalate (p.terms list)) ↔ HaveBreak (textsOfAll list) :=
      (Text.hasBreak_intercalate (by decide)).trans (haveBreak_terms list)
    cases negated <;> simp [term_inList, Term.texts, not_hasBreak_termWords, hitem, hlist]
  | .like item pattern negated escaped => by
    have hitem := hasBreak_term item
    have hpattern := hasBreak_term pattern
    cases negated <;> cases escaped <;>
      simp [term_like, Term.texts, not_hasBreak_termWords, hitem, hpattern]
  | .concat parts => by
    have hparts : HasBreak (" || ".intercalate (p.terms parts)) ↔ HaveBreak (textsOfAll parts) :=
      (Text.hasBreak_intercalate (by decide)).trans (haveBreak_terms parts)
    simp [term_concat, Term.texts, not_hasBreak_termWords, hparts]
  | .conditional test ifTrue ifFalse => by
    have htest := hasBreak_term test
    have hTrue := hasBreak_term ifTrue
    have hFalse := hasBreak_term ifFalse
    simp [term_conditional, Term.texts, not_hasBreak_termWords, htest, hTrue, hFalse, or_assoc]
  | .call function args => by
    have hargs : HasBreak (", ".intercalate (p.terms args)) ↔ HaveBreak (textsOfAll args) :=
      (Text.hasBreak_intercalate (by decide)).trans (haveBreak_terms args)
    simp [term_call, Term.texts, not_hasBreak_termWords, hargs]

/-- Several terms break a line where one of them does. -/
theorem haveBreak_terms : (list : List Term) →
    (HaveBreak (p.terms list) ↔ HaveBreak (textsOfAll list))
  | [] => Iff.rfl
  | t :: rest => by
    have ht := hasBreak_term t
    have hrest := haveBreak_terms rest
    rw [terms_eq_map] at hrest ⊢
    rw [List.map_cons, textsOfAll, haveBreak_cons, haveBreak_append, ht, hrest]

end

/-! ### Statements -/

theorem hasBreak_selectColumn (c : SelectColumn) :
    HasBreak (p.selectColumn c) ↔ HaveBreak c.texts := by
  unfold selectColumn
  cases hlabel : c.label with
  | none => simp [SelectColumn.texts, hasBreak_identifier, not_hasBreak_termWords, hlabel]
  | some label =>
    have hquoted : HasBreak (Text.quoted '"' label) ↔ HasBreak label :=
      Text.hasBreak_quoted (by decide) label
    simp [SelectColumn.texts, hasBreak_identifier, not_hasBreak_termWords,
      not_hasBreak_clauseWords, hlabel, hquoted, or_assoc]

theorem hasBreak_projection (x : Projection) : HasBreak (p.projection x) ↔ HaveBreak x.texts := by
  cases x with
  | columns list =>
    rw [projection, Text.hasBreak_intercalate (by decide), Text.haveBreak_map, Projection.texts,
      Text.haveBreak_flatMap]
    simp only [hasBreak_selectColumn]
  | count => simp [projection, Projection.texts, not_hasBreak_clauseWords]
  | one => simp [projection, Projection.texts, not_hasBreak_clauseWords]

theorem hasBreak_join (j : Join) : HasBreak (p.join j) ↔ HaveBreak j.texts := by
  show HasBreak (" LEFT JOIN " ++ p.identifier j.table ++ " AS " ++ j.aliasName ++ " ON " ++
    j.aliasName ++ "." ++ p.identifier j.key ++ " = " ++ j.parentAlias ++ "." ++
    p.identifier j.foreignKey) ↔ _
  simp only [Join.texts, hasBreak_append, hasBreak_identifier, haveBreak_cons, haveBreak_nil,
    not_hasBreak_termWords, not_hasBreak_clauseWords, or_false, false_or]
  -- The alias of the joined table stands in the text twice.
  constructor
  · rintro (((((h | h) | h) | h) | h) | h) <;> simp [h]
  · rintro (h | h | h | h | h) <;> simp [h]

theorem hasBreak_orderBy (o : OrderBy) : HasBreak (p.orderBy o) ↔ HaveBreak o.key.texts := by
  cases hd : o.descending <;> simp [orderBy_eq, hd, hasBreak_term, not_hasBreak_clauseWords]

/-- The keys of an order, if there are any. -/
theorem hasBreak_order (order : List OrderBy) :
    HasBreak (if order.isEmpty then ""
      else " ORDER BY " ++ ", ".intercalate (order.map p.orderBy)) ↔
        HaveBreak (order.flatMap fun o => o.key.texts) := by
  split
  · next hempty =>
    rw [List.isEmpty_iff.1 hempty]
    simp [not_hasBreak_termWords]
  · rw [hasBreak_append, Text.hasBreak_intercalate (by decide), Text.haveBreak_map,
      Text.haveBreak_flatMap]
    simp [hasBreak_orderBy, not_hasBreak_clauseWords]

end Printer

namespace Dialect

theorem not_hasBreak_numbered {clause : String} (h : ¬ HasBreak clause) (n : Option Nat) :
    ¬ HasBreak (numbered clause n) := by
  cases n <;> simp [numbered, h, not_hasBreak_termWords]

/-- The end of a statement breaks no line. -/
theorem not_hasBreak_ending (dialect : Dialect) (limit offset : Option Nat) (terminate : Bool) :
    ¬ HasBreak (dialect.ending limit offset terminate) := by
  have hlimit : ¬ HasBreak (numbered "LIMIT" limit) := not_hasBreak_numbered (by decide) limit
  have hoffset : ¬ HasBreak (numbered "OFFSET" offset) := not_hasBreak_numbered (by decide) offset
  have hend : ¬ HasBreak (if terminate then ";" else "") := by cases terminate <;> decide
  obtain ⟨limited, hending, hcases⟩ := dialect.ending_cases limit offset terminate
  have hlimited : ¬ HasBreak limited := by
    rcases hcases with ⟨rfl, -⟩ | ⟨rfl, -⟩
    · decide
    · exact hlimit
  simp only [hending, hasBreak_append, hlimited, hoffset, hend, or_self, not_false_eq_true]

end Dialect

/-- A statement breaks a line where one of its texts does. -/
theorem Printer.hasBreak_query (p : Printer) (q : Query) :
    HasBreak (p.query q) ↔ HaveBreak q.texts := by
  have hprojection := p.hasBreak_projection q.projection
  have hjoins : HasBreak (String.join (q.joins.map p.join)) ↔
      HaveBreak (q.joins.flatMap Join.texts) := by
    rw [Text.hasBreak_join, Text.haveBreak_map, Text.haveBreak_flatMap]
    simp only [hasBreak_join]
  have horder := p.hasBreak_order q.order
  have hending := p.dialect.not_hasBreak_ending q.limit q.offset p.terminate
  rw [query_eq]
  cases hfilter : q.filter <;>
    simp only [Query.texts, hasBreak_append, haveBreak_append, haveBreak_cons, haveBreak_nil,
      hasBreak_identifier, hasBreak_term, hprojection, hjoins, horder, hfilter, hending,
      not_hasBreak_termWords, not_hasBreak_clauseWords, Option.toList_none, Option.toList_some,
      List.flatMap_nil, List.flatMap_singleton, or_false, false_or, or_assoc]

end PredicateSql.Sql
