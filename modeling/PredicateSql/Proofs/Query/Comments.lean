import PredicateSql.Proofs.Query.Parentheses
import PredicateSql.Proofs.Query.Rendering

/-!
# Comments in statements

* `Term.doublesMinus`: a minus sign before a number that has one of its own.
* `JoinTree.Forms.quiet`: in the text of a term, a comment starts with such a pair of signs and in
  no other place.
* `Compiler.opensComment_iff`: so it is for whole statements. `Compiler.opensComment_fails`: a
  statement with a comment in it.
-/

namespace PredicateSql

open Sql (Term Printer)
open Text (Quiet OpensComment Spelled Unsigned)

/-! ### Minus signs -/

/-- A literal that is written with a minus sign. -/
def Sql.Term.isSigned : Term → Bool
  | .literal value => value.isSigned
  | _ => false

/-- A minus sign before a literal that is written with one. -/
def Sql.Term.doublesMinus : Term → Bool
  | .negative operand => operand.isSigned
  | _ => false

/-- Somewhere in the term, a minus sign stands before another one. -/
def Sql.Term.HasDoubleMinus (a : Term) : Prop :=
  ∃ x : Term, x.IsPartOf a ∧ x.doublesMinus = true

theorem Sql.Term.hasDoubleMinus_iff {a : Term} :
    a.HasDoubleMinus ↔ a.doublesMinus = true ∨ ∃ b ∈ a.operands, b.HasDoubleMinus := by
  constructor
  · rintro ⟨x, hpart, hx⟩
    rcases Term.isPartOf_iff.1 hpart with rfl | ⟨b, hb, hpart⟩
    · exact .inl hx
    · exact .inr ⟨b, hb, x, hpart, hx⟩
  · rintro (ha | ⟨b, hb, x, hpart, hx⟩)
    · exact ⟨a, .self, ha⟩
    · exact ⟨x, .operand hb hpart, hx⟩

namespace JoinTree

variable {t : JoinTree} {a : Term}

/-- An alias is a plain name, if the stem of all aliases is one. -/
theorem unsigned_aliasOf (hstem : Sql.isPlain t.stem.toList = true) (node : Nat) :
    Unsigned (t.aliasOf node).toList := by
  rw [aliasOf, String.toList_append]
  exact (Sql.unsigned_of_isPlain hstem).append (Text.unsigned_nat node).spelled

/-- The text of a term starts with a minus sign if and only if the term is a number with one. -/
theorem Forms.head?_eq (p : Printer) (hstem : Sql.isPlain t.stem.toList = true)
    (h : t.Forms a) :
    (p.term a).toList ≠ [] ∧ ((p.term a).toList.head? = some '-' ↔ a.isSigned = true) := by
  have hother : ∀ {c : Char} {rest : List Char} {b : Term}, (p.term b).toList = c :: rest →
      c ≠ '-' → b.isSigned = false →
      (p.term b).toList ≠ [] ∧ ((p.term b).toList.head? = some '-' ↔ b.isSigned = true) := by
    intro c rest b hb hc hsigned
    rw [hb, hsigned]
    exact ⟨List.cons_ne_nil c rest,
      iff_of_false (fun h => hc (Option.some.inj h)) Bool.false_ne_true⟩
  have hunsigned : ∀ {text rest : List Char} {b : Term}, Unsigned text →
      (p.term b).toList = text ++ rest → b.isSigned = false →
      (p.term b).toList ≠ [] ∧ ((p.term b).toList.head? = some '-' ↔ b.isSigned = true) := by
    intro text rest b htext hb hsigned
    -- What has no sign starts with a character that a reader passes over.
    obtain ⟨c, more, rfl, hc, -⟩ := htext
    have hne : c ≠ '-' := by
      rintro rfl
      cases hc
    exact hother hb hne hsigned
  -- Only literals can start with a sign; a minus sign in front of a term follows a bracket.
  cases h with
  | @literal value hvalue =>
    exact ⟨p.dialect.literal_ne_nil (hasLiteral_of_literalOf hvalue),
      p.dialect.head?_literal value⟩
  | @column node name hnode =>
    exact hunsigned (unsigned_aliasOf hstem node) (p.toList_column _ name) rfl
  | operation => exact hother (p.toList_operation _ _ _) (by decide) rfl
  | negative => exact hother (p.toList_negative _) (by decide) rfl
  | not => exact hother (p.toList_not _) (by decide) rfl
  | isNull => exact hother (p.toList_isNull _ _) (by decide) rfl
  | inList => exact hother (p.toList_inList _ _ _) (by decide) rfl
  | like => exact hother (p.toList_like _ _ _ _) (by decide) rfl
  | concat => exact hother (p.toList_concat _) (by decide) rfl
  | conditional => exact hother (p.toList_conditional _ _ _) (by decide) rfl
  | @call function args hfunction hargs =>
    exact hunsigned (Sql.unsigned_function hfunction) (p.toList_call function args) rfl

/-- In the text of a term, comments start only with two minus signs. -/
theorem Forms.quiet (p : Printer) (hstem : Sql.isPlain t.stem.toList = true) (h : t.Forms a) :
    Quiet (p.term a).toList a.HasDoubleMinus := by
  induction h with
  | literal =>
    rw [Term.hasDoubleMinus_iff]
    exact (p.dialect.spelled_literal _).quiet.congr (by simp [Term.operands, Term.doublesMinus])
  | @column node name hnode =>
    have hname : Spelled ('.' :: (p.identifier name).toList) :=
      .inert rfl (p.spelled_identifier name)
    rw [p.toList_column, Term.hasDoubleMinus_iff]
    exact ((unsigned_aliasOf hstem node).spelled.append hname).quiet.congr
      (by simp [Term.operands, Term.doublesMinus])
  | operation hop _ _ hleft hright =>
    have htoken := (Sql.Operator.spelled_token (Sql.Operator.ne_negative_of_isInfix hop)).quiet
    rw [p.toList_operation, Term.hasDoubleMinus_iff]
    exact ((hleft.append htoken).append hright).between.congr
      (by simp [Term.operands, Term.doublesMinus])
  | @negative operand h ih =>
    -- The only sign without blanks around it: it may meet another one.
    obtain ⟨hne, hhead⟩ := h.head?_eq p hstem
    rw [p.toList_negative, Term.hasDoubleMinus_iff]
    exact (ih.cons (c := '-') rfl hne).between.congr
      (by simp [Term.operands, Term.doublesMinus, hhead])
  | not _ ih =>
    rw [p.toList_not, Term.hasDoubleMinus_iff]
    exact ((Quiet.word "NOT " (by decide)).append ih).between.congr
      (by simp [Term.operands, Term.doublesMinus])
  | @isNull operand op hop _ ih =>
    have htoken : Quiet op.token.toList False := by
      rcases hop with rfl | rfl <;> exact Quiet.word _ (by decide)
    rw [p.toList_isNull, List.append_cons, Term.hasDoubleMinus_iff]
    exact (ih.between.append htoken).congr (by simp [Term.operands, Term.doublesMinus])
  | @inList item list negated _ _ hitem hlist =>
    have hin : Quiet (if negated then " NOT IN " else " IN ").toList False := by
      cases negated <;> exact Quiet.word _ (by decide)
    have hcomma : Spelled ", ".toList := .word _ (by decide)
    rw [p.toList_inList, Term.hasDoubleMinus_iff]
    exact ((hitem.append hin).append (Quiet.intercalate hcomma hlist).between).between.congr
      (by simp [Term.operands, Term.doublesMinus])
  | @like item pattern negated escaped _ _ hitem hpattern =>
    have hlike : Quiet (if negated then " NOT LIKE " else " LIKE ").toList False := by
      cases negated <;> exact Quiet.word _ (by decide)
    have hescape : Quiet (if escaped then
        " ESCAPE ".toList ++ (Text.quoted '\'' "\\").toList else []) False := by
      cases escaped
      · exact .nil
      · exact (Spelled.append (.word _ (by decide)) (.of_quoted rfl _)).quiet
    rw [p.toList_like, Term.hasDoubleMinus_iff]
    exact (((hitem.append hlike).append hpattern).append hescape).between.congr
      (by simp [Term.operands, Term.doublesMinus])
  | concat _ ih =>
    have hbars : Spelled " || ".toList := .word _ (by decide)
    rw [p.toList_concat, Term.hasDoubleMinus_iff]
    exact (Quiet.intercalate hbars ih).between.congr
      (by simp [Term.operands, Term.doublesMinus])
  | conditional _ _ _ htest hTrue hFalse =>
    have hwhen := (Quiet.word "CASE WHEN " (by decide)).append htest
    have hthen := (hwhen.append (Quiet.word " THEN " (by decide))).append hTrue
    have helse := (hthen.append (Quiet.word " ELSE " (by decide))).append hFalse
    rw [p.toList_conditional, Term.hasDoubleMinus_iff]
    exact (helse.append (Quiet.word " END" (by decide))).congr
      (by simp [Term.operands, Term.doublesMinus, or_assoc])
  | call hfunction _ ih =>
    have hcomma : Spelled ", ".toList := .word _ (by decide)
    rw [p.toList_call, Term.hasDoubleMinus_iff]
    exact ((Sql.unsigned_function hfunction).spelled.quiet.append
      (Quiet.intercalate hcomma ih).between).congr (by simp [Term.operands, Term.doublesMinus])

/-- It does not matter to comments whether an operator stands between parentheses. -/
theorem Forms.quiet_unparenthesized (p : Printer) (hstem : Sql.isPlain t.stem.toList = true)
    (h : t.Forms a) : Quiet (p.term a.unparenthesized).toList a.unparenthesized.HasDoubleMinus := by
  by_cases hsame : a.unparenthesized = a
  · rw [hsame]
    exact h.quiet p hstem
  · cases h with
    | operation hop hleft hright =>
      have htoken := (Sql.Operator.spelled_token (Sql.Operator.ne_negative_of_isInfix hop)).quiet
      rw [Term.unparenthesized, p.toList_unparenthesized, Term.hasDoubleMinus_iff]
      exact (((hleft.quiet p hstem).append htoken).append (hright.quiet p hstem)).congr
        (by simp [Term.operands, Term.doublesMinus])
    | _ => exact absurd rfl hsame

end JoinTree

namespace Compiler

variable {c : Compiler} {r : Request} {q : Sql.Query} {text : String}

/-! ### The clauses of a statement -/

section Clauses

variable {t : JoinTree} (hstem : Sql.isPlain t.stem.toList = true) (hq : q.BuiltOver t)
  (p : Printer)

include hstem hq

theorem quiet_projection : Quiet (p.projection q.projection).toList False := by
  have hprojects := hq.projection
  cases hprojection : q.projection with
  | columns columns =>
    have hcomma : Spelled ", ".toList := .word _ (by decide)
    have hcolumns : ∀ x ∈ columns, Quiet (p.selectColumn x).toList False := by
      intro x hx
      obtain ⟨node, hnode⟩ := hprojects columns hprojection x hx
      refine (Printer.spelled_selectColumn ?_).quiet
      rw [hnode]
      exact (JoinTree.unsigned_aliasOf hstem node).spelled
    rw [Printer.projection, String.toList_intercalate, List.map_map]
    exact (Quiet.intercalate hcomma hcolumns).congr (by simp)
  | count =>
    have hstar : Quiet ['*'] False := .singleton rfl (by decide) (by decide)
    have hname : Spelled "COUNT".toList := .word _ (by decide)
    -- The star alone starts no comment: no slash stands before it.
    have htext : "COUNT(*)".toList = "COUNT".toList ++ ('(' :: ['*'] ++ [')']) := by decide
    rw [Printer.projection, htext]
    exact (hname.quiet.append hstar.between).congr or_self_iff
  | one =>
    have hone : Spelled "1".toList := .word _ (by decide)
    exact hone.quiet

theorem quiet_joins : Quiet (String.join (q.joins.map p.join)).toList False := by
  have halias : ∀ node, Spelled (t.aliasOf node).toList :=
    fun node => (JoinTree.unsigned_aliasOf hstem node).spelled
  rw [String.toList_join, List.flatMap_map, hq.joins]
  refine (Spelled.flatMap fun j hj => ?_).quiet
  obtain ⟨⟨b, node⟩, -, rfl⟩ := List.mem_map.1 hj
  exact Printer.spelled_join (halias node) (halias b.parent)

theorem quiet_filter :
    Quiet (match q.filter with
      | none => ""
      | some filter => " WHERE " ++ p.term filter).toList
      (∃ a ∈ q.filter, a.HasDoubleMinus) := by
  cases hfilter : q.filter with
  | none => exact Quiet.nil.congr (by simp)
  | some f =>
    have hwhere : Spelled " WHERE ".toList := .word _ (by decide)
    obtain ⟨a, ha, rfl⟩ := hq.filter f hfilter
    simp only [String.toList_append]
    exact (hwhere.quiet.append (ha.quiet_unparenthesized p hstem)).congr (by simp)

theorem quiet_order :
    Quiet (if q.order.isEmpty then ""
      else " ORDER BY " ++ ", ".intercalate (q.order.map p.orderBy)).toList
      (∃ o ∈ q.order, o.key.HasDoubleMinus) := by
  have heach : ∀ o ∈ q.order, Quiet (p.orderBy o).toList o.key.HasDoubleMinus := by
    intro o ho
    have hdirection : Spelled (if o.descending then " DESC" else " ASC").toList := by
      split <;> exact .word _ (by decide)
    rw [Printer.orderBy_eq, String.toList_append]
    exact (((hq.order o ho).quiet p hstem).append hdirection.quiet).congr (by simp)
  split
  · next hempty =>
    rw [List.isEmpty_iff] at hempty
    exact Quiet.nil.congr (by simp [hempty])
  · have horder : Spelled " ORDER BY ".toList := .word _ (by decide)
    have hcomma : Spelled ", ".toList := .word _ (by decide)
    rw [String.toList_append, String.toList_intercalate, List.map_map]
    exact (horder.quiet.append (Quiet.intercalate hcomma heach)).congr (by simp)

/-- In a statement, comments start only in its filter and its order, with two minus signs. -/
theorem quiet_query : Quiet (p.query q).toList (∃ a ∈ q.terms, a.HasDoubleMinus) := by
  have hname : Quiet q.aliasName.toList False := by
    rw [hq.aliasName]
    exact (JoinTree.unsigned_aliasOf hstem 0).spelled.quiet
  have htable := (p.spelled_identifier q.table).quiet
  have hending := (p.dialect.spelled_ending q.limit q.offset p.terminate).quiet
  -- The clauses in the order in which they are written.
  have hselect := (Quiet.word "SELECT " (by decide)).append (quiet_projection hstem hq p)
  have hfrom := (hselect.append (Quiet.word " FROM " (by decide))).append htable
  have has := (hfrom.append (Quiet.word " AS " (by decide))).append hname
  have hwhere := (has.append (quiet_joins hstem hq p)).append (quiet_filter hstem hq p)
  have hall := (hwhere.append (quiet_order hstem hq p)).append hending
  rw [Printer.query_eq]
  simp only [String.toList_append]
  refine hall.congr ?_
  simp [Sql.Query.terms, or_and_right, exists_or]

end Clauses

/-! ### Statements -/

/-- A comment starts in a statement if and only if a minus sign stands before a number with a minus
sign of its own, at any depth of the filter or the order. Nothing else in a request can start one:
no name and no value, in no dialect. -/
theorem opensComment_iff (hstem : Sql.isPlain c.aliasStem.toList = true)
    (h : c.compile r = .ok text) :
    OpensComment text.toList ↔
      ∃ q x, c.build r = .ok q ∧ q.HasPart x ∧ x.doublesMinus = true := by
  obtain ⟨q, hq, rfl⟩ := compile_eq_ok h
  obtain ⟨hstems, hbuilt⟩ := builtOver_of_build hq
  rw [(quiet_query (hstems ▸ hstem) hbuilt c.printer).opens]
  constructor
  · rintro ⟨a, ha, x, hpart, hx⟩
    exact ⟨q, x, hq, ⟨a, ha, hpart⟩, hx⟩
  · rintro ⟨q', x, hq', ⟨a, ha, hpart⟩, hx⟩
    obtain rfl : q = q' := Except.ok.inj (hq.symm.trans hq')
    exact ⟨a, ha, x, hpart, hx⟩

/-- The number of people whose number exceeds the smallest integer with its sign inverted. -/
def invertedRequest : Request where
  model := "Person"
  select := .count
  filter := some (.lambda [⟨"p", "Person"⟩]
    (.binary .greater (.memberOf (.param "p" "Person") "Id")
      (.unary .negate (.staticMember "int" "MinValue"))))

/-- The two signs stand side by side in the other dialect, too. -/
theorem opensComment_iff_sqlite :
    let c : Compiler := { sample with printer := { dialect := .sqlite } }
    ∃ text, c.compile invertedRequest = .ok text ∧ OpensComment text.toList := by
  intro c
  let inverted : Term := .negative (.literal (.int (-2147483648)))
  obtain ⟨q, hq, hfilter⟩ : ∃ q, c.build invertedRequest = .ok q ∧
      q.filter = some (.binary (.column "t0" "Id") .greater inverted false) := ⟨_, rfl, rfl⟩
  have hpart : q.HasPart inverted :=
    ⟨_, List.mem_append_left _ (Option.mem_toList.2 hfilter),
      .operand (List.mem_cons_of_mem _ List.mem_cons_self) .self⟩
  have hsigned : inverted.doublesMinus = true := by decide
  obtain ⟨text, htext⟩ : ∃ text, c.compile invertedRequest = .ok text := ⟨_, rfl⟩
  have hplain : Sql.isPlain c.aliasStem.toList = true := by decide
  exact ⟨text, htext, (opensComment_iff hplain htext).2 ⟨q, inverted, hq, hpart, hsigned⟩⟩

/-- The signs of the negation and of its operand start a comment. -/
theorem opensComment_fails :
    Sql.isPlain sample.aliasStem.toList = true ∧ ∃ text,
      sample.compile invertedRequest = .ok text ∧ OpensComment text.toList ∧
      text = "SELECT COUNT(*) FROM \"people\" AS t0 WHERE t0.\"Id\" > (--2147483648);" := by
  refine ⟨by decide, _, rfl, ?_, rfl⟩
  decide

end Compiler

end PredicateSql
