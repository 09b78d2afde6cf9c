import PredicateSql.Proofs.Query.Analysis
import PredicateSql.Proofs.Query.Formation
import PredicateSql.Proofs.Query.Kleene

/-!
# Columns at the end of paths

What chains of members and constants become, and what their terms are worth on a row.

* `Context.resolve_spec`: a chain of members becomes the column at the end of its path, in the table
  that the path was joined by.
* `Context.column_yields`, `Context.hasValue_yields`, `Context.operand_yields`: where every alias is
  read at the end of its path, the terms of chains and constants have the values of `Source`.
-/

namespace PredicateSql

open Sql (Term)

/-! ### Chains and constants -/

namespace Expr

variable {e : Expr} {after members : List String} {value : Value}

theorem isClosed_of_members? (h : e.members? after = some members) : e.isClosed = .ok false := by
  fun_induction members? after e with
  | case1 after owner type name ih => rw [isClosed, ih h]
  | case2 after operand ih => rw [isClosed, ih h]
  | case3 => rfl
  | case4 => cases h

theorem handlesNegation_of_members? (h : e.members? after = some members) :
    e.handlesNegation = .ok false := by
  fun_induction members? after e with
  | case1 => rfl
  | case2 after operand ih => rw [handlesNegation, ih h]
  | case3 => rfl
  | case4 => cases h

theorem constant?_of_members? (h : e.members? after = some members) : e.constant? = none := by
  fun_induction members? after e with
  | case1 => rfl
  | case2 after operand ih => rw [constant?, ih h]
  | case3 => rfl
  | case4 => cases h

theorem members?_append (e : Expr) (after more : List String) :
    e.members? (after ++ more) = (e.members? after).map (· ++ more) := by
  fun_induction members? after e with
  | case1 after owner type name ih => exact ih
  | case2 after operand ih => exact ih
  | case3 => rfl
  | case4 e after hmember hconvert hparam =>
    rw [members?]
    · rfl
    all_goals assumption

theorem isClosed_of_constant? (h : e.constant? = some value) : e.isClosed = .ok true := by
  fun_induction constant? e with
  | case1 => rfl
  | case2 operand ih => rw [isClosed, ih h]
  | case3 => cases h

theorem isClosed_of_constantList? {values : List Value} (h : e.constantList? = some values) :
    e.isClosed = .ok true := by
  fun_induction constantList? e with
  | case1 => rfl
  | case2 type items =>
    -- The elements of the array, one by one.
    rw [isClosed]
    induction items generalizing values with
    | nil => rfl
    | cons item rest ih =>
      rw [List.mapM_cons] at h
      obtain ⟨v, hv, h⟩ := Option.bind_eq_some_iff.1 h
      obtain ⟨vs, hvs, -⟩ := Option.bind_eq_some_iff.1 h
      rw [areClosed, isClosed_of_constant? hv]
      exact ih hvs
  | case3 operand ih => rw [isClosed, ih h]
  | case4 => cases h

end Expr

namespace Evaluator

variable {v : Evaluator} {e : Expr} {value : Value}

theorem evaluate_of_constant? (h : e.constant? = some value) : v.evaluate e = .ok value := by
  fun_induction Expr.constant? e with
  | case1 =>
    obtain rfl := Option.some.inj h
    rfl
  | case2 operand ih =>
    rw [evaluate, ih h]
    rfl
  | case3 => cases h

theorem evaluateAll_of_constants {items : List Expr} {values : List Value}
    (h : items.mapM Expr.constant? = some values) : v.evaluateAll items = .ok values := by
  induction items generalizing values with
  | nil =>
    obtain rfl := Option.some.inj h
    rfl
  | cons item rest ih =>
    rw [List.mapM_cons] at h
    obtain ⟨first, hfirst, h⟩ := Option.bind_eq_some_iff.1 h
    obtain ⟨more, hmore, h⟩ := Option.bind_eq_some_iff.1 h
    obtain rfl := Option.some.inj h
    rw [evaluateAll, evaluate_of_constant? hfirst, ih hmore]
    rfl

theorem evaluate_of_constantList? {values : List Value} (h : e.constantList? = some values) :
    v.evaluate e = .ok (.list values) := by
  fun_induction Expr.constantList? e with
  | case1 =>
    obtain rfl := Option.some.inj h
    rfl
  | case2 type items =>
    rw [evaluate, evaluateAll_of_constants h]
    rfl
  | case3 operand ih =>
    rw [evaluate, ih h]
    rfl
  | case4 => cases h

end Evaluator

namespace Context

variable {c : Context} {s : Scope} {e : Expr} {after members : List String} {value : Value}

theorem isProvablyNull_of_members? (h : e.members? after = some members) :
    c.isProvablyNull e = .ok false := by
  fun_induction Expr.members? after e with
  | case1 after owner type name ih =>
    have hclosed : (Expr.member owner type name).isClosed = .ok false := by
      rw [Expr.isClosed]
      exact Expr.isClosed_of_members? h
    rw [isProvablyNull, ih h, isClosedNull, hclosed]
    rfl
  | case2 after operand ih => rw [isProvablyNull, ih h]
  | case3 => rfl
  | case4 => cases h

theorem isProvablyNull_of_constant? (h : e.constant? = some value) :
    c.isProvablyNull e = .ok value.isNull := by
  fun_induction Expr.constant? e with
  | case1 =>
    obtain rfl := Option.some.inj h
    rfl
  | case2 operand ih => rw [isProvablyNull, ih h]
  | case3 => cases h

/-- A chain of members is resolved from its parameter on, with what follows it. -/
theorem resolves_of_members? (c : Context) (h : e.members? after = some members) :
    ∃ name declared, ∀ (s : Scope) (more : List String),
      c.term { s with pending := after ++ more } e =
        c.resolve { s with pending := members ++ more } name declared := by
  fun_induction Expr.members? after e with
  | case1 after owner type name ih => exact ih h
  | case2 after operand ih => exact ih h
  | case3 after name model =>
    obtain rfl := Option.some.inj h
    exact ⟨name, model, fun _ _ => rfl⟩
  | case4 => cases h

theorem term_of_members? (h : e.members? s.pending = some members) :
    ∃ name declared, c.term s e = c.resolve { s with pending := members } name declared := by
  obtain ⟨name, declared, hterm⟩ := resolves_of_members? c h
  have hs := hterm s []
  rw [List.append_nil, List.append_nil] at hs
  exact ⟨name, declared, hs⟩

theorem term_of_constant? {t t' : JoinTree} {a : Term} (hs : s.pending = [])
    (h : e.constant? = some value) (ha : (c.term s e).Runs t a t') :
    a = .literal value ∧ t = t' := by
  fun_induction Expr.constant? e with
  | case1 type =>
    obtain rfl := Option.some.inj h
    obtain ⟨hliteral, rfl⟩ := Walk.runs_lift.1 ha
    rw [literal, boundary, hs] at hliteral
    exact ⟨literalOf_eq_ok hliteral, rfl⟩
  | case2 operand ih => exact ih h ha
  | case3 => cases h

end Context

namespace Catalog

theorem column?_eq_some {c : Catalog} {root : Model} {e : Expr} {path : List String}
    {column : String} : c.column? root e = some (path, column) ↔ ∃ first rest p last,
      e.members? [] = some (first :: rest) ∧ "HasValue" ∉ rest ∧ root.find? first = some p ∧
        c.follow? p rest = some (path, last) ∧ column = last.columnName := by
  rw [column?]
  constructor
  · intro h
    split at h
    · next first rest hmembers =>
      split at h
      · cases h
      · next hrest =>
        obtain ⟨p, hp, h⟩ := Option.bind_eq_some_iff.1 h
        obtain ⟨⟨path', last⟩, hlast, h⟩ := Option.bind_eq_some_iff.1 h
        obtain ⟨rfl, rfl⟩ := Prod.mk.inj (Option.some.inj h)
        exact ⟨first, rest, p, last, hmembers, hrest, hp, hlast, rfl⟩
    · cases h
  · rintro ⟨first, rest, p, last, hmembers, hrest, hp, hlast, rfl⟩
    simp [hmembers, hrest, hp, hlast]

end Catalog

namespace Source

variable {m : Source} {e : Expr} {path : List String} {column : String} {value : Value}

theorem operand_of_column? (h : m.catalog.column? m.root e = some (path, column)) :
    m.operand e = m.values path column := by
  rw [operand, column?, h]
  rfl

theorem kleene_of_column? : ∀ e : Expr, m.catalog.column? m.root e = some (path, column) →
    m.kleene e = .ofValue (m.values path column)
  | .member .., h => by
    rw [kleene, column?, h]
    rfl
  | .unary .convert operand, h => by
    rw [kleene]
    exact kleene_of_column? operand h
  | .binary .., h | .unary .not _, h | .unary .negate _, h | .staticMember .., h | .constant .., h
  | .param .., h | .call .., h | .staticCall .., h | .new .., h | .array .., h
  | .conditional .., h | .lambda .., h => by
    obtain ⟨_, _, _, _, hmembers, -⟩ := Catalog.column?_eq_some.1 h
    cases hmembers

theorem kleene_hasValue {owner : Expr} {type : String}
    (h : m.catalog.column? m.root owner = some (path, column)) :
    m.kleene (.member owner type "HasValue") = .ofBool !(m.values path column).isNull := by
  obtain ⟨first, rest, p, last, hmembers, -⟩ := Catalog.column?_eq_some.1 h
  have hchain : (Expr.member owner type "HasValue").members? [] =
      some (first :: (rest ++ ["HasValue"])) := by
    have happend := owner.members?_append [] ["HasValue"]
    rw [hmembers] at happend
    exact happend
  have hnone : m.catalog.column? m.root (.member owner type "HasValue") = none := by
    rw [Catalog.column?, hchain]
    exact if_pos (List.mem_append_right _ List.mem_cons_self)
  -- The chain with `HasValue` is no column itself, so its owner is looked up instead.
  rw [kleene, column?, hnone, operand_of_column? h]
  rfl

theorem operand_of_constant? (h : e.constant? = some value) : m.operand e = value := by
  have hcolumn : m.catalog.column? m.root e = none := by
    rw [Option.eq_none_iff_forall_ne_some]
    rintro ⟨path, column⟩ he
    -- A chain starts at a parameter, and a parameter is no constant.
    obtain ⟨first, rest, p, last, hmembers, -⟩ := Catalog.column?_eq_some.1 he
    rw [Expr.constant?_of_members? hmembers] at h
    cases h
  rw [operand, column?, hcolumn, h]
  rfl

end Source

/-! ### Columns at the end of paths -/

/-- The tree of a query over the model of a row. -/
structure Source.Starts (m : Source) (c : Context) (t : JoinTree) : Prop where
  catalog : c.catalog = m.catalog
  root : m.catalog.find? t.model = some m.root
  rooted : t.IsRooted

namespace Source

variable {m : Source} {v : Value}

/-- Where every alias is read at the end of its path, the term has this value. -/
def Reads (m : Source) (v : Value) (t : JoinTree) (a : Term) : Prop :=
  ∀ T : JoinTree, t.Extends T → a.eval m.db (T.row m.values) = v

theorem reads_stable : Walk.Stable (m.Reads v) :=
  fun _ _ _ hext h _ hT => h _ (hext.trans hT)

end Source

namespace Context

variable {c : Context} {m : Source} {s : Scope} {e : Expr} {t t' : JoinTree} {a : Term}

/-- What a chain asks of the column at its end: nothing, or whether it has a value. -/
def IsEnding (ending : List String) : Prop :=
  ending = [] ∨ ending = ["HasValue"]

theorem navigate?_of_no_reference {p : Property} (h : p.reference = none) (members : List String) :
    m.catalog.navigate? p members = some ([], p, members) := by
  cases members with
  | nil => rfl
  | cons member rest => rw [Catalog.navigate?, h]

theorem navigate?_ending {p : Property} {ending : List String} (h : IsEnding ending) :
    m.catalog.navigate? p ending = some ([], p, ending) := by
  rcases h with rfl | rfl
  · rfl
  · cases href : p.reference with
    | none => exact navigate?_of_no_reference href _
    | some reference =>
      rw [Catalog.navigate?, href]
      rfl

/-- A path with an ending is navigated up to the ending, and perhaps some members `Value` before it,
which are the column itself. -/
theorem navigate?_of_follow? {p last : Property} {rest path ending : List String}
    (hpath : m.catalog.follow? p rest = some (path, last)) (hrest : "HasValue" ∉ rest)
    (hending : IsEnding ending) :
    ∃ left, m.catalog.navigate? p (rest ++ ending) = some (path, last, left) ∧
      ∀ a, scalarMembers a last.type left = scalarMembers a last.type ending := by
  induction rest generalizing p path with
  | nil =>
    obtain ⟨rfl, rfl⟩ := Prod.mk.inj (Option.some.inj hpath)
    exact ⟨ending, navigate?_ending hending, fun a => rfl⟩
  | cons member rest ih =>
    have hmember : member ≠ "HasValue" := fun heq => hrest (heq ▸ List.mem_cons_self)
    have hrest' : "HasValue" ∉ rest := fun hmem => hrest (List.mem_cons_of_mem _ hmem)
    rw [Catalog.follow?] at hpath
    rw [List.cons_append, Catalog.navigate?]
    split at hpath
    · next hvalue =>
      obtain ⟨left, hleft, hscalar⟩ := ih hpath hrest'
      cases href : p.reference with
      | some reference => exact ⟨left, by simp [hvalue, hleft], hscalar⟩
      | none =>
        rw [navigate?_of_no_reference href] at hleft
        obtain ⟨rfl, rfl, rfl⟩ := by simpa using hleft
        refine ⟨member :: (rest ++ ending), rfl, fun a => ?_⟩
        rw [hvalue, scalarMembers, if_neg (by simp), if_pos rfl]
        exact hscalar a
    · next hvalue =>
      obtain ⟨reference, href, hpath⟩ := Option.bind_eq_some_iff.1 hpath
      obtain ⟨target, htarget, hpath⟩ := Option.bind_eq_some_iff.1 hpath
      obtain ⟨next, hnext, hpath⟩ := Option.bind_eq_some_iff.1 hpath
      obtain ⟨⟨path', last'⟩, hpath', heq⟩ := Option.bind_eq_some_iff.1 hpath
      obtain ⟨rfl, rfl⟩ := Prod.mk.inj (Option.some.inj heq)
      obtain ⟨left, hleft, hscalar⟩ := ih hpath' hrest'
      exact ⟨left, by simp [href, hmember, hvalue, htarget, hnext, hleft], hscalar⟩

/-- The trees of queries over a model keep that model. -/
theorem keeps_starts : c.catalog.Keeps (m.Starts c) where
  rooted ht := ht.rooted
  child ht hstands _ _ _ hchild := by
    obtain ⟨hext, hrooted, -⟩ := JoinTree.child_spec ht.rooted hstands.le hchild
    exact ⟨ht.catalog, hext.model ▸ ht.root, hrooted⟩

/-- A chain of members of a parameter ends at the column that its path leads to. -/
theorem resolve_spec {name declared first : String} {rest path ending : List String}
    {p last : Property} (hpending : s.pending = first :: (rest ++ ending))
    (hfirst : m.root.find? first = some p) (hpath : m.catalog.follow? p rest = some (path, last))
    (hrest : "HasValue" ∉ rest) (hending : IsEnding ending) (ht : m.Starts c t)
    (h : (c.resolve s name declared).Runs t a t') :
    t.Extends t' ∧ m.Starts c t' ∧ ∃ node, node ≤ t'.branches.length ∧ t'.pathOf node = path ∧
      scalarMembers (.column (t'.aliasOf node) last.columnName) last.type ending = .ok a := by
  obtain ⟨root, path', last', left', node, hroot, hchain, hgrows, ht', hnode, hnavigates⟩ :=
    resolve_navigates keeps_starts ht h
  rw [ht.catalog, ht.root] at hroot
  obtain rfl := Option.some.inj hroot
  -- The chain of the walk is the path with its ending.
  obtain ⟨left, hleft, hscalar⟩ := navigate?_of_follow? hpath hrest hending
  rw [hpending, Catalog.chain?, hfirst, ht.catalog] at hchain
  obtain ⟨rfl, rfl, rfl⟩ := by simpa using hleft.symm.trans hchain
  exact ⟨hgrows.grows, ht', node, hnavigates.le, hnode, by rw [← hscalar]; exact hnavigates.members⟩

/-! ### Operands -/

theorem column_yields {path : List String} {column : String} (hs : s.pending = [])
    (he : m.catalog.column? m.root e = some (path, column)) :
    (c.term s e).Yields (m.Starts c) (m.Reads (m.values path column)) := by
  obtain ⟨first, rest, p, last, hmembers, hrest, hfirst, hpath, rfl⟩ := Catalog.column?_eq_some.1 he
  obtain ⟨name, declared, hterm⟩ := term_of_members? (c := c) (hs ▸ hmembers)
  intro t a t' ht ha
  rw [hterm] at ha
  have hpending : first :: rest = first :: (rest ++ []) := by rw [List.append_nil]
  obtain ⟨hext, ht', node, hnode, hpathOf, hscalar⟩ :=
    resolve_spec hpending hfirst hpath hrest (.inl rfl) ht ha
  obtain rfl := Except.ok.inj hscalar
  refine ⟨hext, ht', fun T hT => ?_⟩
  rw [Term.eval, ← hT.aliasOf, JoinTree.row_aliasOf (Nat.le_trans hnode hT.length_le),
    hT.pathOf hnode, hpathOf]

theorem hasValue_yields {owner : Expr} {type : String} {path : List String} {column : String}
    (hs : s.pending = []) (he : m.catalog.column? m.root owner = some (path, column)) :
    (c.term s (.member owner type "HasValue")).Yields (m.Starts c)
      (m.Reads (Truth.ofBool !(m.values path column).isNull).toValue) := by
  obtain ⟨first, rest, p, last, hmembers, hrest, hfirst, hpath, rfl⟩ := Catalog.column?_eq_some.1 he
  have hchain : (Expr.member owner type "HasValue").members? s.pending =
      some (first :: (rest ++ ["HasValue"])) := by
    have happend := owner.members?_append [] ["HasValue"]
    rw [hmembers, List.nil_append] at happend
    rw [hs, Expr.members?, happend]
    rfl
  obtain ⟨name, declared, hterm⟩ := term_of_members? (c := c) hchain
  intro t a t' ht ha
  rw [hterm] at ha
  -- The chain stops one member early, and the test is written around the column found there.
  obtain ⟨hext, ht', node, hnode, hpathOf, hscalar⟩ := resolve_spec rfl hfirst hpath hrest
    (.inr rfl) ht ha
  obtain rfl := Except.ok.inj hscalar
  refine ⟨hext, ht', fun T hT => ?_⟩
  rw [Term.eval, Term.eval, ← hT.aliasOf, JoinTree.row_aliasOf (Nat.le_trans hnode hT.length_le),
    hT.pathOf hnode, hpathOf]
  rfl

/-- An operand becomes a column or a literal. -/
theorem operand_yields (hs : s.pending = []) (he : e.IsOperand m.catalog m.root) :
    (c.term s e).Yields (m.Starts c) (m.Reads (m.operand e)) := by
  rcases he with he | he
  · obtain ⟨⟨path, column⟩, he⟩ := Option.isSome_iff_exists.1 he
    rw [Source.operand_of_column? he]
    exact column_yields hs he
  · obtain ⟨value, he⟩ := Option.isSome_iff_exists.1 he
    rw [Source.operand_of_constant? he]
    intro t a t' ht ha
    obtain ⟨rfl, rfl⟩ := term_of_constant? hs he ha
    exact ⟨JoinTree.Extends.refl t, ht, fun T _ => by rw [Term.eval]⟩

theorem isProvablyNull_of_isOperand {catalog : Catalog} {root : Model}
    (he : e.IsOperand catalog root) : c.isProvablyNull e = .ok e.isNullConstant := by
  rcases he with he | he
  · obtain ⟨⟨path, column⟩, he⟩ := Option.isSome_iff_exists.1 he
    obtain ⟨first, rest, p, last, hmembers, -⟩ := Catalog.column?_eq_some.1 he
    rw [isProvablyNull_of_members? hmembers, Expr.isNullConstant,
      Expr.constant?_of_members? hmembers]
    rfl
  · obtain ⟨value, he⟩ := Option.isSome_iff_exists.1 he
    rw [isProvablyNull_of_constant? he, Expr.isNullConstant, he]
    rfl

end Context

end PredicateSql
