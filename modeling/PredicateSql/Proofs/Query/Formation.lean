import PredicateSql.Proofs.Query.Composition

/-!
# The terms that a query is built from

* `JoinTree.Forms`: the shape of the terms that expressions become. All operators but the one at
  the root of a filter stand between parentheses, literals have a text, and columns belong to
  nodes of the tree.
* `Compiler.builtOver_of_build`: the filter and the keys of a query are such terms, in a tree that
  the whole query is built over. `Compiler.operands_of_hasPart`: so are the operands of all parts.
-/

namespace PredicateSql

open Sql (Term)

/-! ### The shape of terms -/

/-- The terms that expressions become over a join tree. -/
inductive JoinTree.Forms (t : JoinTree) : Term → Prop
  | literal {value : Value} (h : literalOf value = .ok (.literal value)) : Forms t (.literal value)
  | column {node : Nat} {name : String} (h : node ≤ t.branches.length) :
    Forms t (.column (t.aliasOf node) name)
  | operation {left right : Term} {op : Sql.Operator} (hop : op.isInfix = true)
    (hleft : Forms t left) (hright : Forms t right) : Forms t (.binary left op right true)
  | negative {operand : Term} (h : Forms t operand) : Forms t (.negative operand)
  | not {operand : Term} (h : Forms t operand) : Forms t (.not operand)
  | isNull {operand : Term} {op : Sql.Operator} (hop : op = .equalsNull ∨ op = .notEqualsNull)
    (h : Forms t operand) : Forms t (.isNull operand op)
  | inList {item : Term} {list : List Term} {negated : Bool} (hitem : Forms t item)
    (hlist : ∀ x ∈ list, Forms t x) : Forms t (.inList item list negated)
  | like {item pattern : Term} {negated escaped : Bool} (hitem : Forms t item)
    (hpattern : Forms t pattern) : Forms t (.like item pattern negated escaped)
  | concat {parts : List Term} (h : ∀ x ∈ parts, Forms t x) : Forms t (.concat parts)
  | conditional {test ifTrue ifFalse : Term} (htest : Forms t test) (hTrue : Forms t ifTrue)
    (hFalse : Forms t ifFalse) : Forms t (.conditional test ifTrue ifFalse)
  | call {function : String} {args : List Term} (hfunction : function ∈ Sql.functions)
    (hargs : ∀ x ∈ args, Forms t x) : Forms t (.call function args)

/-- The operands of such a term are such terms. -/
theorem JoinTree.Forms.operands {t : JoinTree} {a : Term} (h : t.Forms a) :
    ∀ b ∈ a.operands, t.Forms b := by
  cases h with
  | literal | column => simp [Term.operands]
  | operation _ hleft hright => simp [Term.operands, hleft, hright]
  | negative h | not h | isNull _ h => simp [Term.operands, h]
  | inList hitem hlist => exact List.forall_mem_cons.2 ⟨hitem, hlist⟩
  | like hitem hpattern => simp [Term.operands, hitem, hpattern]
  | concat h => exact h
  | conditional htest hTrue hFalse => simp [Term.operands, htest, hTrue, hFalse]
  | call _ hargs => exact hargs

/-- The terms of expressions have that shape. -/
theorem Context.Composes.forms {c : Context} {t : JoinTree} {a : Term} (h : c.Composes t a) :
    t.Forms a := by
  induction h with
  | literal hvalue => exact .literal hvalue
  | column hnode => exact .column hnode
  | operation hop _ _ _ hleft hright => exact .operation hop hleft hright
  | negative _ ih => exact .negative ih
  | not _ ih => exact .not ih
  | isNull hop _ ih => exact .isNull hop ih
  | inList _ _ _ _ hitem hlist => exact .inList hitem hlist
  | like _ _ hitem hpattern => exact .like hitem hpattern
  | concat _ ih => exact .concat ih
  | conditional _ _ _ htest hTrue hFalse => exact .conditional htest hTrue hFalse
  | call hfunction _ ih => exact .call hfunction ih

theorem hasLiteral_of_literalOf {value : Value} {a : Term} (h : literalOf value = .ok a) :
    Sql.hasLiteral value = true := by
  cases value with
  | list | record => cases h
  | _ => rfl

/-! ### Queries -/

namespace Context

/-- All columns are of tables of the tree. -/
def Projects (t : JoinTree) (columns : List Sql.SelectColumn) : Prop :=
  ∀ x ∈ columns, ∃ node, x.table = t.aliasOf node

end Context

/-- The aliases of a query and of all its terms are those of a tree. -/
structure Sql.Query.BuiltOver (q : Sql.Query) (tree : JoinTree) : Prop where
  rooted : tree.IsRooted
  aliasName : q.aliasName = tree.aliasOf 0
  joins : q.joins = tree.joins
  filter : ∀ f, q.filter = some f → ∃ a, tree.Forms a ∧ f = a.unparenthesized
  order : ∀ o ∈ q.order, tree.Forms o.key
  projection : ∀ columns, q.projection = .columns columns → Context.Projects tree columns

namespace Compiler

variable {c : Compiler} {r : Request} {q : Sql.Query} {a : Term}

/-- Filter, order and projection of a query are built over one tree. -/
theorem builtOver_of_build (h : c.build r = .ok q) :
    (c.joinTree r).stem = c.aliasStem ∧ q.BuiltOver (c.joinTree r) := by
  obtain ⟨hstem, root, -, hq⟩ := composedOver_of_build h
  refine ⟨hstem, hq.spans.grown.rooted, hq.aliasName, hq.joins, ?_, ?_, ?_⟩
  · intro f hf
    obtain ⟨a, ha, rfl⟩ := hq.filter f hf
    exact ⟨a, ha.forms, rfl⟩
  · intro o ho
    exact (hq.order o ho).forms
  · intro columns hcolumns x hx
    obtain ⟨node, -, -, -, -, htable, -⟩ := hq.projection columns hcolumns x hx
    exact ⟨node, htable⟩

/-- The parts of the statement for a request are terms that expressions become, but for the
parentheses that its filter stands without. -/
theorem operands_of_hasPart (h : c.build r = .ok q) (ha : q.HasPart a) :
    ∀ b ∈ a.operands, (c.joinTree r).Forms b := by
  obtain ⟨b, hb, rfl | rfl⟩ := composes_of_hasPart h ha
  · exact hb.forms.operands
  · rw [Term.operands_unparenthesized]
    exact hb.forms.operands

/-- A filter is built first, and what comes after it only extends its tree. -/
theorem filter_of_build (h : c.build r = .ok q) :
    ∃ root t, c.context.model r.model = .ok root ∧
      (c.filter r.filter).Runs (.ofModel root c.aliasStem) q.filter t ∧
      t.Extends (c.joinTree r) := by
  obtain ⟨root, t, hroot, hfilter, -, hext, -⟩ := walks_of_build h
  exact ⟨root, t, hroot, hfilter, hext⟩

end Compiler

end PredicateSql
