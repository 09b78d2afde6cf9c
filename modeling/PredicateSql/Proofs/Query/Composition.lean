import PredicateSql.Proofs.Query.Navigation
import PredicateSql.Proofs.Query.Nulls
import PredicateSql.Proofs.Sql.Parts

/-!
# How terms are put together

* `Context.Composes`: the terms that expressions become over a join tree, with all that is known of
  their parts: all operators stand between parentheses, literals have a text, columns were found at
  the end of a chain of members, and `NULL` is neither compared nor listed.
* `Context.term_composes`: every expression becomes such a term. The induction is on the expression.
  Other properties of terms follow from the constructors, without another look at the walks.
* `IncludeGraph.Leads`: the paths along the relations of an include graph. A projection grows the
  tree only along them (`Compiler.projection_includes`).
-/

namespace PredicateSql

open Sql (Term SelectColumn)

/-! ### Operators and functions -/

/-- The operator stands between two operands. -/
def Sql.Operator.isInfix : Sql.Operator → Bool
  | .and | .or | .equals | .notEquals | .less | .lessOrEqual | .greater | .greaterOrEqual
  | .add | .subtract | .multiply | .divide | .modulus => true
  | _ => false

theorem Sql.Operator.isInfix_invertIf {op : Sql.Operator} {negated : Bool} (h : op.isInfix = true) :
    (op.invertIf negated).isInfix = true := by
  cases negated <;> cases op <;> first | rfl | cases h

theorem Sql.Operator.isInfix_of_ofBinary? {op : BinaryOp} {operator : Sql.Operator}
    (h : Sql.Operator.ofBinary? op = some operator) : operator.isInfix = true := by
  cases op <;> cases h <;> rfl

theorem Sql.Operator.ne_negative_of_isInfix {op : Sql.Operator} (h : op.isInfix = true) :
    op ≠ .negative := by
  rintro rfl
  cases h

theorem Sql.Operator.isEquality_invertIf {op : Sql.Operator} {negated : Bool} :
    (op.invertIf negated).isEquality = op.isEquality := by
  cases negated <;> cases op <;> rfl

theorem BinaryOp.isComparison_of_isLogical {op : BinaryOp} (h : op.isLogical = true) :
    op.isComparison = false := by
  cases op <;> first | rfl | cases h

theorem Sql.Operator.isComparison_of_isEquality {op : BinaryOp} {operator : Sql.Operator}
    (h : Sql.Operator.ofBinary? op = some operator) (heq : operator.isEquality = true) :
    op.isComparison = true := by
  cases op <;> cases h <;> first | rfl | cases heq

/-- The functions that terms call. -/
def Sql.functions : List String :=
  ["LENGTH", "UPPER", "LOWER", "TRIM"]

/-! ### Include graphs -/

namespace IncludeGraph

/-- The properties that a graph follows from its model, with the graphs below them. -/
def relations : IncludeGraph → List (String × IncludeGraph)
  | .node _ relations => relations

/-- A path of properties that a graph follows, one or more. -/
inductive Leads : IncludeGraph → List String → Prop
  | here {graph below : IncludeGraph} {name : String} (h : (name, below) ∈ graph.relations) :
    Leads graph [name]
  | further {graph below : IncludeGraph} {name : String} {path : List String}
    (h : (name, below) ∈ graph.relations) (hpath : Leads below path) : Leads graph (name :: path)

end IncludeGraph

/-! ### Composition -/

/-- The terms that expressions become over a join tree. -/
inductive Context.Composes (c : Context) (t : JoinTree) : Term → Prop
  | literal {value : Value} (h : literalOf value = .ok (.literal value)) :
    Composes c t (.literal value)
  /-- A column within the term that a chain of members became, in a tree on the way to this one. -/
  | column {node : Nat} {name : String} {s : Scope} {param declared : String} {a : Term}
    {t₀ t₁ : JoinTree} (hnode : node ≤ t.branches.length) (h₀ : t₀.Extends t)
    (h : (c.resolve s param declared).Runs t₀ a t₁) (h₁ : t₁.Extends t)
    (hpart : (Term.column (t.aliasOf node) name).IsPartOf a) :
    Composes c t (.column (t.aliasOf node) name)
  | operation {left right : Term} {op : Sql.Operator} (hop : op.isInfix = true)
    (hnull : op.isEquality = true → left.isNullLiteral = false ∧ right.isNullLiteral = false)
    (hleft : Composes c t left) (hright : Composes c t right) :
    Composes c t (.binary left op right true)
  | negative {operand : Term} (h : Composes c t operand) : Composes c t (.negative operand)
  | not {operand : Term} (h : Composes c t operand) : Composes c t (.not operand)
  | isNull {operand : Term} {op : Sql.Operator} (hop : op = .equalsNull ∨ op = .notEqualsNull)
    (h : Composes c t operand) : Composes c t (.isNull operand op)
  | inList {item : Term} {list : List Term} {negated : Bool} (hne : list ≠ [])
    (hnull : ∀ x ∈ list, x.isNullLiteral = false) (hitem : Composes c t item)
    (hlist : ∀ x ∈ list, Composes c t x) : Composes c t (.inList item list negated)
  | like {item pattern : Term} {negated escaped : Bool} (hitem : Composes c t item)
    (hpattern : Composes c t pattern) : Composes c t (.like item pattern negated escaped)
  | concat {parts : List Term} (h : ∀ x ∈ parts, Composes c t x) : Composes c t (.concat parts)
  | conditional {test ifTrue ifFalse : Term} (htest : Composes c t test)
    (hTrue : Composes c t ifTrue) (hFalse : Composes c t ifFalse) :
    Composes c t (.conditional test ifTrue ifFalse)
  | call {function : String} {args : List Term} (hfunction : function ∈ Sql.functions)
    (hargs : ∀ x ∈ args, Composes c t x) : Composes c t (.call function args)

namespace Context

variable {c : Context} {s : Scope} {e : Expr} {w : Walk Term} {t t' : JoinTree} {a x : Term}

/-- A term stays one in every extension of the tree. -/
theorem Composes.extends (ha : c.Composes t a) (h : t.Extends t') : c.Composes t' a := by
  induction ha with
  | literal hvalue => exact .literal hvalue
  | column hnode h₀ hrun h₁ hpart =>
    rw [← h.aliasOf] at hpart ⊢
    exact .column (Nat.le_trans hnode h.length_le) (h₀.trans h) hrun (h₁.trans h) hpart
  | operation hop hnull _ _ hleft hright => exact .operation hop hnull hleft hright
  | negative _ ih => exact .negative ih
  | not _ ih => exact .not ih
  | isNull hop _ ih => exact .isNull hop ih
  | inList hne hnull _ _ hitem hlist => exact .inList hne hnull hitem hlist
  | like _ _ hitem hpattern => exact .like hitem hpattern
  | concat _ ih => exact .concat ih
  | conditional _ _ _ htest hTrue hFalse => exact .conditional htest hTrue hFalse
  | call hfunction _ ih => exact .call hfunction ih

theorem composes_stable : Walk.Stable c.Composes :=
  fun _ _ _ h ha => ha.extends h

/-- So are all of its operands. -/
theorem Composes.operands (h : c.Composes t a) : ∀ b ∈ a.operands, c.Composes t b := by
  cases h with
  | literal | column => simp [Term.operands]
  | operation _ _ hleft hright => simp [Term.operands, hleft, hright]
  | negative h | not h | isNull _ h => simp [Term.operands, h]
  | inList _ _ hitem hlist => exact List.forall_mem_cons.2 ⟨hitem, hlist⟩
  | like hitem hpattern => simp [Term.operands, hitem, hpattern]
  | concat h => exact h
  | conditional htest hTrue hFalse => simp [Term.operands, htest, hTrue, hFalse]
  | call _ hargs => exact hargs

/-- A walk for such a term. -/
abbrev YieldsTerm (c : Context) (w : Walk Term) : Prop :=
  w.Yields c.catalog.Spans c.Composes

/-! ### Literals and members -/

theorem composes_literalOf {value : Value} (h : literalOf value = .ok a) : c.Composes t a := by
  obtain rfl := literalOf_eq_ok h
  exact .literal h

theorem composes_text {text : String} : c.Composes t (.text text) :=
  .literal rfl

theorem composes_int {i : Int64} : c.Composes t (.literal (.int i)) :=
  .literal rfl

theorem composes_scalarMembers {members : List String} {b : Term} {type : ValueType}
    (ha : c.Composes t a) (h : scalarMembers a type members = .ok b) : c.Composes t b := by
  refine scalarMembers_induction h ha (fun x hx => ?_) fun x hx => .isNull (.inr rfl) hx
  exact .call (by simp [Sql.functions]) (by simpa using hx)

/-- Members are written around a term. -/
theorem isPartOf_scalarMembers {members : List String} {b : Term} {type : ValueType}
    (h : scalarMembers a type members = .ok b) : a.IsPartOf b :=
  scalarMembers_induction h .self (fun _ hx => .operand List.mem_cons_self hx)
    fun _ hx => .operand List.mem_cons_self hx

theorem composes_literal (h : c.literal s e = .ok a) : c.Composes t a := by
  rw [literal] at h
  obtain ⟨value, -, h⟩ := bind_eq_ok.1 h
  exact composes_literalOf h

/-- The column of a chain is a part of what the chain becomes. -/
theorem resolve_composes {name declared : String} : c.YieldsTerm (c.resolve s name declared) := by
  intro t a t' ht h
  obtain ⟨root, path, last, ending, node, -, -, hgrows, ht', -, hnavigates⟩ :=
    resolve_navigates Catalog.keeps_spans ht h
  have hext := hgrows.grows
  have hpart := isPartOf_scalarMembers hnavigates.members
  exact ⟨hext, ht', composes_scalarMembers (.column hnavigates.le hext h (.refl t') hpart)
    hnavigates.members⟩

/-! ### Single nodes -/

theorem asCondition_composes (h : c.YieldsTerm w) : c.YieldsTerm (asCondition s e w) := by
  unfold asCondition
  refine Walk.Yields.bind composes_stable h fun a => Walk.Yields.ite (fun _ => ?_) fun _ => ?_
  · refine Walk.Yields.lift_bind fun handles _ => Walk.Yields.ite (fun _ => ?_) fun _ => ?_
    · exact Walk.Yields.pure fun t ha => ha
    · exact Walk.Yields.pure fun t ha => .not ha
  · exact Walk.Yields.pure fun t ha => ha

theorem literal_composes : c.YieldsTerm (liftM (c.literal s e)) :=
  Walk.Yields.lift fun _ h _ => composes_literal h

theorem withMembers_composes (h : c.YieldsTerm w) : c.YieldsTerm (c.withMembers s e w) := by
  unfold withMembers
  split
  · exact h
  · refine Walk.Yields.lift_bind fun closed _ => ?_
    refine Walk.Yields.ite (fun _ => literal_composes) fun _ => ?_
    split
    · exact Walk.Yields.throw
    · refine Walk.Yields.bind composes_stable h fun a => Walk.Yields.lift fun b hb t ha => ?_
      exact composes_scalarMembers ha hb

theorem closedOr_composes (h : c.YieldsTerm w) : c.YieldsTerm (c.closedOr s e w) := by
  unfold closedOr
  exact Walk.Yields.lift_bind fun closed _ =>
    Walk.Yields.ite (fun _ => literal_composes) fun _ => h

/-- A comparison for equality is written only where no operand is certain to be `null`, and so none
becomes `NULL`. -/
theorem comparison_composes {op : Sql.Operator} {left right : Expr} {walkLeft walkRight : Walk Term}
    (hop : op.isInfix = true) (hleft : c.YieldsTerm walkLeft) (hright : c.YieldsTerm walkRight)
    (hleftNull : c.isProvablyNull left = .ok false → walkLeft.NeverNull)
    (hrightNull : c.isProvablyNull right = .ok false → walkRight.NeverNull) :
    c.YieldsTerm (c.comparison op left right walkLeft walkRight) := by
  unfold comparison
  refine Walk.Yields.lift_bind fun found hfound => ?_
  split
  · next leftIsNull test =>
    have htest := nullTest?_operator hfound
    refine Walk.Yields.ite (fun _ => ?_) fun _ => ?_
    · exact Walk.Yields.bind composes_stable hright fun a =>
        Walk.Yields.pure fun t ha => .isNull htest ha
    · exact Walk.Yields.bind composes_stable hleft fun a =>
        Walk.Yields.pure fun t ha => .isNull htest ha
  · have hnull : op.isEquality = true → walkLeft.NeverNull ∧ walkRight.NeverNull := by
      intro heq
      obtain ⟨hl, hr⟩ := isProvablyNull_of_nullTest? heq hfound
      exact ⟨hleftNull hl, hrightNull hr⟩
    have hstable : Walk.Stable fun t a =>
        c.Composes t a ∧ (op.isEquality = true → a.isNullLiteral = false) :=
      fun _ _ _ hext ha => ⟨ha.1.extends hext, ha.2⟩
    refine Walk.Yields.bind hstable (hleft.notNull fun heq => (hnull heq).1) fun a => ?_
    refine Walk.Yields.bind hstable (hright.notNull fun heq => (hnull heq).2) fun b => ?_
    exact Walk.Yields.pure fun t hb ha =>
      .operation hop (fun heq => ⟨ha.2 heq, hb.2 heq⟩) ha.1 hb.1

theorem composes_concatParts (h : c.Composes t a) : ∀ x ∈ a.concatParts, c.Composes t x := by
  cases a with
  | concat parts =>
    cases h with
    | concat hparts => exact hparts
  | _ => simpa [Term.concatParts] using h

theorem arithmetic_composes {op : BinaryOp} {operator : Sql.Operator} {left right : Expr}
    {walkLeft walkRight : Walk Term} (hop : operator.isInfix = true)
    (hequality : operator.isEquality = false) (hleft : c.YieldsTerm walkLeft)
    (hright : c.YieldsTerm walkRight) :
    c.YieldsTerm (c.arithmetic s op operator left right walkLeft walkRight) := by
  unfold arithmetic
  refine Walk.Yields.bind composes_stable hleft fun a => ?_
  refine Walk.Yields.bind composes_stable hright fun b => ?_
  refine Walk.Yields.ite (fun _ => ?_) fun _ => ?_
  · refine Walk.Yields.pure fun t hb ha => .concat fun x hx => ?_
    rcases List.mem_append.1 hx with hx | hx
    · exact composes_concatParts ha x hx
    · exact composes_concatParts hb x hx
  · exact Walk.Yields.pure fun t hb ha => .operation hop (by simp [hequality]) ha hb

theorem inList_composes {collection : Expr} {walkItem : Walk Term} (hitem : c.YieldsTerm walkItem) :
    c.YieldsTerm (c.inList s collection walkItem) := by
  unfold inList
  refine Walk.Yields.lift_bind fun closed _ => Walk.Yields.ite (fun _ => ?_)
    fun _ => Walk.Yields.throw
  refine Walk.Yields.lift_bind fun value _ => Walk.Yields.ite (fun _ => ?_) fun hempty => ?_
  · exact Walk.Yields.pure fun t =>
      .operation rfl (fun _ => ⟨rfl, rfl⟩) composes_int composes_int
  refine Walk.Yields.bind composes_stable hitem fun item => ?_
  refine Walk.Yields.lift_bind fun list hlist => ?_
  -- The list and the test against `NULL` are written alone or with a connective between them.
  have hinList : list ≠ [] → ∀ t : JoinTree, c.Composes t item →
      c.Composes t (.inList item list s.negated) := by
    obtain ⟨hliteral, rfl⟩ := literalsOf_eq_ok hlist
    refine fun hne t ha => .inList hne ?_ ha ?_
    · intro x hx
      obtain ⟨v, hv, rfl⟩ := List.mem_map.1 hx
      simpa [Term.isNullLiteral] using (List.mem_filter.1 hv).2
    · intro x hx
      obtain ⟨v, hv, rfl⟩ := List.mem_map.1 hx
      exact .literal (hliteral v hv)
  have htest : Sql.Operator.invertIf s.negated .equalsNull = .equalsNull ∨
      Sql.Operator.invertIf s.negated .equalsNull = .notEqualsNull := by
    cases s.negated <;> simp [Sql.Operator.invertIf, Sql.Operator.invert]
  have hisNull : ∀ t : JoinTree, c.Composes t item →
      c.Composes t (.isNull item (.invertIf s.negated .equalsNull)) :=
    fun t ha => .isNull htest ha
  refine Walk.Yields.ite (fun hany => Walk.Yields.pure (hinList ?_)) fun _ => ?_
  · -- Without a `null` among them, all elements are in the list.
    rintro rfl
    have hnone := List.map_eq_nil_iff.1 (literalsOf_eq_ok hlist).2.symm
    rw [List.filter_eq_nil_iff] at hnone
    rw [Bool.not_eq_true', List.any_eq_false] at hany
    obtain ⟨v, hv⟩ := List.exists_mem_of_ne_nil _ (mt List.isEmpty_iff.2 hempty)
    exact hnone v hv (by simpa using hany v hv)
  refine Walk.Yields.ite (fun _ => Walk.Yields.pure hisNull) fun hne => ?_
  refine Walk.Yields.pure fun t ha => .operation (Sql.Operator.isInfix_invertIf rfl) ?_
    (hinList (fun hnil => hne (by rw [hnil]; rfl)) t ha) (hisNull t ha)
  rw [Sql.Operator.isEquality_invertIf]
  exact fun h => absurd h (by decide)

theorem like_composes {method : Method} {anchor : Text.Anchor} {pattern : Expr}
    {walkItem walkPattern : Walk Term} (hitem : c.YieldsTerm walkItem)
    (hpattern : c.YieldsTerm walkPattern) :
    c.YieldsTerm (c.like s method anchor pattern walkItem walkPattern) := by
  unfold like
  refine Walk.Yields.bind composes_stable hitem fun item => ?_
  refine Walk.Yields.lift_bind fun closed _ => Walk.Yields.ite (fun _ => ?_) fun _ => ?_
  · refine Walk.Yields.lift_bind fun value _ => ?_
    split
    · exact Walk.Yields.pure fun t ha => .like ha composes_text
    · exact Walk.Yields.throw
  -- A pattern that is not known yet is joined with its wildcards.
  · refine Walk.Yields.bind composes_stable hpattern fun p => Walk.Yields.pure fun t hp ha => ?_
    refine .like ha (.concat fun x hx => ?_)
    have hmem : x = .text "%" ∨ x = p := by
      cases anchor <;>
        simp only [Text.Anchor.surround, List.mem_append, List.mem_singleton] at hx <;> grind
    rcases hmem with rfl | rfl
    · exact composes_text
    · exact hp

theorem callWithArg_composes {method : Method} {target arg : Expr} {walkTarget walkArg : Walk Term}
    (htarget : c.YieldsTerm walkTarget) (harg : c.YieldsTerm walkArg) :
    c.YieldsTerm (c.callWithArg s method target arg walkTarget walkArg) := by
  unfold callWithArg
  refine Walk.Yields.ite (fun _ => inList_composes harg) fun _ => ?_
  split
  · exact like_composes htarget harg
  · exact Walk.Yields.throw

theorem callWithoutArgs_composes {method : Method} {walkTarget : Walk Term}
    (htarget : c.YieldsTerm walkTarget) : c.YieldsTerm (callWithoutArgs method walkTarget) := by
  unfold callWithoutArgs
  split
  · next function _ hfunction =>
    have hmem : function ∈ Sql.functions := List.mem_cons_of_mem _ (Method.function?_mem hfunction)
    refine Walk.Yields.bind composes_stable htarget fun a => Walk.Yields.pure fun t ha => ?_
    exact .call hmem (by simpa using ha)
  · exact Walk.Yields.throw

/-! ### Expressions -/

/-- Every expression becomes a term over the tree that its walk leaves. -/
theorem term_composes : ∀ (e : Expr) (s : Scope), c.YieldsTerm (c.term s e)
  | .constant .., _ | .staticMember .., _ => literal_composes
  | .param .., _ => resolve_composes
  | .member owner _ name, s => term_composes owner (s.withMember name)
  | .unary .convert operand, s => term_composes operand s
  | .unary .not operand, s =>
    withMembers_composes (asCondition_composes (term_composes operand s.isolated.inverted))
  | .unary .negate operand, s => by
    refine withMembers_composes (Walk.Yields.bind composes_stable
      (term_composes operand s.isolated.neutral) fun a => ?_)
    exact Walk.Yields.pure fun t ha => .negative ha
  | .binary op left right, s => by
    refine withMembers_composes ?_
    split
    · exact closedOr_composes Walk.Yields.throw
    · next operator hoperator =>
      have hop := Sql.Operator.isInfix_of_ofBinary? hoperator
      have hequality := Sql.Operator.isComparison_of_isEquality hoperator
      refine Walk.Yields.ite (fun hlogical => ?_) fun _ => Walk.Yields.ite (fun _ => ?_) fun h => ?_
      · refine Walk.Yields.bind composes_stable
          (asCondition_composes (term_composes left s.isolated)) fun a => ?_
        refine Walk.Yields.bind composes_stable
          (asCondition_composes (term_composes right s.isolated)) fun b =>
          Walk.Yields.pure fun t hb ha => ?_
        refine .operation (Sql.Operator.isInfix_invertIf hop) (fun heq => ?_) ha hb
        rw [Sql.Operator.isEquality_invertIf] at heq
        cases (BinaryOp.isComparison_of_isLogical hlogical).symm.trans (hequality heq)
      · exact comparison_composes (Sql.Operator.isInfix_invertIf hop)
          (term_composes left s.isolated.neutral) (term_composes right s.isolated.neutral)
          (term_neverNull rfl) (term_neverNull rfl)
      · exact arithmetic_composes hop (by simpa using fun heq => h (hequality heq))
          (term_composes left s.isolated.neutral) (term_composes right s.isolated.neutral)
  | .call target _ [], s =>
    withMembers_composes (closedOr_composes
      (callWithoutArgs_composes (term_composes target s.isolated.neutral)))
  | .call target _ [arg], s =>
    withMembers_composes (closedOr_composes (callWithArg_composes
      (term_composes target s.isolated.neutral) (term_composes arg s.isolated.neutral)))
  | .staticCall _ [_, item], s =>
    withMembers_composes (closedOr_composes (Walk.Yields.ite
      (fun _ => inList_composes (term_composes item s.isolated.neutral))
      fun _ => Walk.Yields.throw))
  | .call _ _ (_ :: _ :: _), _ | .staticCall _ [], _ | .staticCall _ [_], _
  | .staticCall _ (_ :: _ :: _ :: _), _ | .new .., _ | .array .., _ =>
    withMembers_composes (closedOr_composes Walk.Yields.throw)
  | .conditional test ifTrue ifFalse, s => by
    refine withMembers_composes ?_
    refine Walk.Yields.bind composes_stable
      (asCondition_composes (term_composes test s.isolated.neutral)) fun a => ?_
    refine Walk.Yields.bind composes_stable
      (asCondition_composes (term_composes ifTrue s.isolated)) fun b => ?_
    refine Walk.Yields.bind composes_stable
      (asCondition_composes (term_composes ifFalse s.isolated)) fun d => ?_
    exact Walk.Yields.pure fun t hd hb ha => .conditional ha hb hd
  | .lambda _ body, s =>
    withMembers_composes
      (Walk.Yields.lift_bind fun s' _ => asCondition_composes (term_composes body s'))

theorem keyTerm_composes (e : Expr) : c.YieldsTerm (c.keyTerm e) := by
  unfold keyTerm
  split
  · exact Walk.Yields.lift_bind fun s _ => term_composes _ s
  · exact term_composes _ _

/-! ### Projections -/

/-- The nodes that an include graph brings along, with the models that they stand for, the paths to
them and the graphs below them. Each is reached from the one above it, in a tree on the way to the
whole. -/
inductive Includes (c : Context) (tree : JoinTree) (root : Model) (graph : IncludeGraph) :
    Nat → Model → List String → IncludeGraph → Prop
  | root : Includes c tree root graph 0 root [] graph
  | relation {node child : Nat} {model target : Model} {path : List String}
    {columns : Option (List String)} {relations : List (String × IncludeGraph)} {name : String}
    {below : IncludeGraph} {property : Property} {reference : Reference} {t₀ t₁ : JoinTree}
    (h : Includes c tree root graph node model path (.node columns relations))
    (hrelation : (name, below) ∈ relations) (hproperty : model.property name = .ok property)
    (href : property.reference = some reference) (htarget : c.model reference.model = .ok target)
    (h₀ : t₀.Extends tree) (hwalk : (walkTo node property target).Runs t₀ child t₁)
    (h₁ : t₁.Extends tree) :
    Includes c tree root graph child target (path ++ [property.name]) below

/-- A column of a node that an include graph brings along. -/
def IncludesColumn (c : Context) (tree : JoinTree) (root : Model) (graph : IncludeGraph)
    (x : SelectColumn) : Prop :=
  ∃ node model path below, c.Includes tree root graph node model path below ∧
    x.table = tree.aliasOf node ∧ ∃ p ∈ model.properties, x.name = p.columnName

theorem mem_properties_of_projected {model : Model} {names : Option (List String)}
    {properties : List Property} (h : projected model names = .ok properties) :
    ∀ p ∈ properties, p ∈ model.properties := by
  cases names with
  | none =>
    obtain rfl := Except.ok.inj h
    exact fun p hp => (List.mem_filter.1 hp).1
  | some names =>
    rw [projected] at h
    induction names generalizing properties with
    | nil =>
      obtain rfl := Except.ok.inj h
      exact nofun
    | cons name rest ih =>
      rw [List.mapM_cons] at h
      obtain ⟨p, hp, h⟩ := bind_eq_ok.1 h
      obtain ⟨more, hmore, h⟩ := bind_eq_ok.1 h
      obtain rfl := Except.ok.inj h
      exact List.forall_mem_cons.2
        ⟨List.mem_of_find?_eq_some (Model.property_eq_ok.1 hp), ih hmore⟩

mutual

/-- The columns of a node and of those below it are columns that the whole graph brings along, if
it brings the node along. The tree grows only along the relations below the node. -/
theorem project_includes {node : Nat} {model : Model} {label : String} {t t' : JoinTree}
    {columns : List SelectColumn} (ht : c.catalog.Spans t)
    (hstands : c.catalog.StandsFor t node model) :
    ∀ {below : IncludeGraph}, (c.project node model label below).Runs t columns t' →
      t.GrowsBy (fun new => ∃ path, below.Leads path ∧ new = t.pathOf node ++ path) t' ∧
      c.catalog.Spans t' ∧ ∀ {tree root graph path}, t'.Extends tree →
        c.Includes tree root graph node model path below →
        ∀ x ∈ columns, c.IncludesColumn tree root graph x
  | .node names relations, h => by
    simp only [project, Walk.runs_bind, Walk.runs_get, Walk.runs_lift, Walk.runs_pure] at h
    obtain ⟨_, _, ⟨rfl, rfl⟩, properties, _, ⟨hproperties, rfl⟩, more, t₁, hmore, rfl, rfl⟩ := h
    obtain ⟨hgrows, ht', hcolumns⟩ := projectRelations_includes names ht hstands
      (fun r hr => hr) hmore
    refine ⟨hgrows, ht', fun hT hincludes x hx => ?_⟩
    rcases List.mem_append.1 hx with hx | hx
    · obtain ⟨p, hp, rfl⟩ := List.mem_map.1 hx
      exact ⟨node, model, _, _, hincludes, ((hgrows.grows.trans hT).aliasOf node).symm, p,
        mem_properties_of_projected hproperties p hp, rfl⟩
    · exact hcolumns hT hincludes x hx

theorem projectRelations_includes {node : Nat} {model : Model} {label : String} {t t' : JoinTree}
    {columns : List SelectColumn} {all : List (String × IncludeGraph)}
    (names : Option (List String)) (ht : c.catalog.Spans t)
    (hstands : c.catalog.StandsFor t node model) :
    ∀ {relations : List (String × IncludeGraph)}, (∀ r ∈ relations, r ∈ all) →
      (c.projectRelations node model label relations).Runs t columns t' →
      t.GrowsBy (fun new => ∃ path, (IncludeGraph.node names all).Leads path ∧
        new = t.pathOf node ++ path) t' ∧
      c.catalog.Spans t' ∧ ∀ {tree root graph path}, t'.Extends tree →
        c.Includes tree root graph node model path (.node names all) →
        ∀ x ∈ columns, c.IncludesColumn tree root graph x
  | [], _, h => by
    obtain ⟨rfl, rfl⟩ := Walk.runs_pure.1 h
    exact ⟨.refl ht.grown.rooted, ht, fun _ _ => nofun⟩
  | (name, below) :: rest, hall, h => by
    simp only [projectRelations, Walk.runs_bind, Walk.runs_lift] at h
    obtain ⟨property, _, ⟨hproperty, rfl⟩, h⟩ := h
    cases href : property.reference with
    | none => simp [href] at h
    | some reference =>
      simp only [href, Walk.runs_bind, Walk.runs_lift, Walk.runs_pure] at h
      obtain ⟨target, _, ⟨htarget, rfl⟩, child, t₁, hchild, own, t₂, hown, more, t₃, hmore, rfl,
        rfl⟩ := h
      have hfind := Model.property_eq_ok.1 hproperty
      have hmodel := model_eq_ok.1 htarget
      have hwalk := Walk.runs_walkTo.1 hchild
      have hrelation : (name, below) ∈ (IncludeGraph.node names all).relations :=
        hall _ List.mem_cons_self
      have hname : property.name = name := Model.name_of_find? hfind
      obtain ⟨-, -, -, hpath⟩ := JoinTree.child_spec ht.grown.rooted hstands.le hwalk
      have hstep : t.GrowsBy (fun new => ∃ path, (IncludeGraph.node names all).Leads path ∧
          new = t.pathOf node ++ path) t₁ :=
        .child ht.grown.rooted hstands.le ⟨_, .here hrelation, by rw [hname]⟩ hwalk
      obtain ⟨hgrows, ht₂, hbelow⟩ := project_includes
        (ht.child hstands hfind href hmodel hwalk)
        (hstands.child ht.grown.rooted hfind href hmodel hwalk) hown
      have hfirst := hstep.trans (hgrows.mono fun new ⟨path, hleads, hnew⟩ =>
        ⟨name :: path, .further hrelation hleads, by
          rw [hnew, hpath, hname, List.append_assoc, List.singleton_append]⟩)
      -- The node is still there after the walk below it, and so are the columns found there.
      obtain ⟨hgrows', ht₃, hothers⟩ := projectRelations_includes names ht₂
        (hstands.extends hfirst.grows) (fun r hr => hall r (List.mem_cons_of_mem _ hr)) hmore
      rw [hfirst.grows.pathOf hstands.le] at hgrows'
      refine ⟨hfirst.trans hgrows', ht₃, fun hT hincludes x hx => ?_⟩
      have hext := hgrows'.grows.trans hT
      rcases List.mem_append.1 hx with hx | hx
      · refine hbelow hext (hincludes.relation (hall _ List.mem_cons_self) hproperty href htarget
          (hfirst.grows.trans hext) hchild (hgrows.grows.trans hext)) x hx
      · exact hothers hT hincludes x hx

end

end Context

/-! ### Queries -/

/-- A query whose terms and columns are put together over a tree that spans its models. -/
structure Sql.Query.ComposedOver (q : Sql.Query) (c : Context) (root : Model)
    (graph : IncludeGraph) (tree : JoinTree) : Prop where
  spans : c.catalog.Spans tree
  found : c.catalog.find? tree.model = some root
  aliasName : q.aliasName = tree.aliasOf 0
  table : q.table = root.tableName
  joins : q.joins = tree.joins
  filter : ∀ f, q.filter = some f → ∃ a, c.Composes tree a ∧ f = a.unparenthesized
  order : ∀ o ∈ q.order, c.Composes tree o.key
  projection : ∀ columns, q.projection = .columns columns →
    ∀ x ∈ columns, c.IncludesColumn tree root graph x

namespace Compiler

variable {c : Compiler} {r : Request} {q : Sql.Query} {a : Term}

theorem filter_composes (e : Option Expr) :
    (c.filter e).Yields c.context.catalog.Spans fun t filter =>
      ∀ f, filter = some f → ∃ a, c.context.Composes t a ∧ f = a.unparenthesized := by
  cases e with
  | none => exact Walk.Yields.pure fun t f hf => by cases hf
  | some e =>
    refine Walk.Yields.bind Context.composes_stable (Context.term_composes e {}) fun a => ?_
    refine Walk.Yields.pure fun t ha f hf => ⟨a, ha, (Option.some.inj hf).symm⟩

theorem orderKeys_compose (keys : List OrderKey) :
    (c.orderKeys keys).Yields c.context.catalog.Spans fun t order =>
      ∀ o ∈ order, c.context.Composes t o.key := by
  induction keys with
  | nil => exact Walk.Yields.pure fun t o ho => by cases ho
  | cons key rest ih =>
    refine Walk.Yields.bind Context.composes_stable (Context.keyTerm_composes key.key) fun a => ?_
    -- The first key is walked first, so its term must outlive the walk of the others.
    have hstable : Walk.Stable fun (t : JoinTree) (order : List Sql.OrderBy) =>
        ∀ o ∈ order, c.context.Composes t o.key :=
      fun _ _ _ hext h o ho => (h o ho).extends hext
    refine Walk.Yields.bind hstable ih fun order => ?_
    refine Walk.Yields.pure fun t horder ha => ?_
    simp only [List.mem_cons, forall_eq_or_imp]
    exact ⟨ha, horder⟩

/-- What a query selects grows the tree only along the relations of its include graph, and not at
all where no rows are wanted. -/
theorem projection_includes {root : Model} {t t' : JoinTree} {p : Sql.Projection}
    (ht : c.context.catalog.Spans t) (hroot : c.context.catalog.find? t.model = some root)
    (h : (c.projection root r).Runs t p t') :
    t.GrowsBy (fun new => r.select.isOrdered = true ∧ (r.graph.getD .all).Leads new) t' ∧
      c.context.catalog.Spans t' ∧ ∀ columns, p = .columns columns →
      ∀ x ∈ columns, c.context.IncludesColumn t' root (r.graph.getD .all) x := by
  unfold projection at h
  cases hselect : r.select with
  | count | any =>
    rw [hselect] at h
    obtain ⟨rfl, rfl⟩ := Walk.runs_pure.1 h
    exact ⟨.refl ht.grown.rooted, ht, nofun⟩
  | many | first | single =>
    simp only [hselect, Walk.runs_bind, Walk.runs_pure] at h
    obtain ⟨columns, _, hcolumns, rfl, rfl⟩ := h
    obtain ⟨hgrows, ht', hincludes⟩ :=
      Context.project_includes ht (Catalog.standsFor_root hroot) hcolumns
    refine ⟨hgrows.mono ?_, ht', fun found heq => ?_⟩
    · rintro new ⟨path, hleads, rfl⟩
      rw [t.pathOf_root]
      exact ⟨rfl, hleads⟩
    · obtain rfl := Sql.Projection.columns.inj heq
      exact hincludes (.refl _) .root

/-- Filter, order and projection of a query are put together over one tree, each extending what the
one before it left. -/
theorem walks_of_build (h : c.build r = .ok q) :
    ∃ root t, c.context.model r.model = .ok root ∧
      (c.filter r.filter).Runs (.ofModel root c.aliasStem) q.filter t ∧
      (JoinTree.ofModel root c.aliasStem).Extends t ∧ t.Extends (c.joinTree r) ∧
      q.ComposedOver c.context root (r.graph.getD .all) (c.joinTree r) := by
  obtain ⟨root, filter, t, order, t', projection, hmodel, hfilter, horder, hprojection, rfl⟩ :=
    build_eq_ok_iff.1 h
  obtain ⟨hext, ht, hf⟩ := filter_composes _ _ _ _ (Catalog.spans_ofModel _ _) hfilter
  obtain ⟨hext', ht', ho⟩ := orderKeys_compose _ _ _ _ ht horder
  have hfound := Context.model_eq_ok.1 hmodel
  have hroot : c.context.catalog.find? t'.model = some root := by
    rw [(hext.trans hext').model, JoinTree.ofModel, Catalog.name_of_find? hfound, hfound]
  obtain ⟨hgrows, ht'', hp⟩ := projection_includes ht' hroot hprojection
  have hext'' := hgrows.grows
  refine ⟨root, t, hmodel, hfilter, hext, hext'.trans hext'',
    ht'', by rw [hext''.model, hroot], rfl, rfl, rfl, ?_, ?_, hp⟩
  · intro f heq
    obtain ⟨a, ha, rfl⟩ := hf f heq
    exact ⟨a, ha.extends (hext'.trans hext''), rfl⟩
  · intro o hmem
    exact (ho o hmem).extends hext''

theorem composedOver_of_build (h : c.build r = .ok q) :
    (c.joinTree r).stem = c.aliasStem ∧ ∃ root, c.context.model r.model = .ok root ∧
      q.ComposedOver c.context root (r.graph.getD .all) (c.joinTree r) := by
  obtain ⟨root, t, hmodel, -, hext, hext', hcomposed⟩ := walks_of_build h
  exact ⟨(hext.trans hext').stem, root, hmodel, hcomposed⟩

/-- The root of a clause is a term that an expression became, but for the parentheses that a filter
stands without, and all other parts are such terms. -/
theorem composes_of_hasPart (h : c.build r = .ok q) (ha : q.HasPart a) :
    (∃ b, c.context.Composes (c.joinTree r) b ∧ (a = b ∨ a = b.unparenthesized)) := by
  obtain ⟨-, root, -, hcomposed⟩ := composedOver_of_build h
  obtain ⟨whole, hwhole, hpart⟩ := ha
  have hoperands : ∀ b, c.context.Composes (c.joinTree r) b →
      ∀ d ∈ b.operands, c.context.Composes (c.joinTree r) d := fun _ hb => hb.operands
  rcases List.mem_append.1 hwhole with hfilter | hkey
  · obtain ⟨b, hb, rfl⟩ := hcomposed.filter whole (Option.mem_toList.1 hfilter)
    rcases Term.isPartOf_iff.1 hpart with rfl | ⟨x, hx, hpart⟩
    · exact ⟨b, hb, .inr rfl⟩
    · rw [Term.operands_unparenthesized] at hx
      exact ⟨a, hpart.of_operands hoperands (hb.operands x hx), .inl rfl⟩
  · obtain ⟨o, ho, rfl⟩ := List.mem_map.1 hkey
    exact ⟨a, hpart.of_operands hoperands (hcomposed.order o ho), .inl rfl⟩

end Compiler

end PredicateSql
