import PredicateSql.Proofs.Lambda.Printing
import PredicateSql.Proofs.Lambda.Rereading

/-!
# Printed trees read back

* `Grammar.NamesParams`: the tokens of the parameters of a lambda.
* `parseLambda_render`: what is parsed from the text of a tree.
-/

namespace PredicateSql

open Text.Utf8 (encode encode_append)
open Grammar (Names Spells)

/-! ### Parameters -/

namespace Grammar

variable {g : Grammar} {ts s : List Token} {names : List String}

/-- The tokens of names, up to a closing parenthesis. -/
inductive NamesAll : List Token → List String → Prop
  | last {t closing : Token} {name : String} (h : Names t name)
    (hclosing : closing.kind = .parenRight) : NamesAll [t, closing] [name]
  | cons {t comma : Token} {ts : List Token} {name : String} {names : List String}
    (h : Names t name) (hcomma : comma.kind = .comma) (hrest : NamesAll ts names) :
    NamesAll (t :: comma :: ts) (name :: names)

/-- The tokens of the parameters of a lambda. -/
inductive NamesParams : List Token → List String → Prop
  | one {t : Token} {name : String} (h : Names t name) : NamesParams [t] [name]
  | group {opening : Token} {ts : List Token} {names : List String}
    (hopening : opening.kind = .parenLeft) (h : NamesAll ts names) :
    NamesParams (opening :: ts) names

theorem run_names_of (h : NamesAll ts names) {count : Nat} (hcount : ts.length < count) :
    (g.names count).run (ts ++ s) = .ok (names, s) := by
  induction h generalizing count with
  | @last t closing name h hclosing =>
    obtain _ | count := count
    · exact absurd hcount (Nat.not_lt_zero _)
    have hne : closing.kind ≠ .comma := hclosing ▸ by decide
    rw [Grammar.names, List.cons_append, Parser.run_bind_of_eq (run_expect_of_eq h.kind),
      List.cons_append, Parser.run_bind_of_eq (run_consume_of_ne hne)]
    show (g.expect .parenRight "')'" >>= fun _ => pure [t.text]).run _ = _
    rw [Parser.run_bind_of_eq (run_expect_of_eq hclosing), h.text]
    rfl
  | @cons t comma ts name names h hcomma hrest ih =>
    obtain _ | count := count
    · exact absurd hcount (Nat.not_lt_zero _)
    rw [List.length_cons, List.length_cons] at hcount
    rw [Grammar.names, List.cons_append, Parser.run_bind_of_eq (run_expect_of_eq h.kind),
      List.cons_append, Parser.run_bind_of_eq (run_consume_of_eq hcomma)]
    show (g.names count >>= fun rest => pure (t.text :: rest)).run _ = _
    rw [Parser.run_bind_of_eq (ih (by omega)), h.text]
    rfl

theorem run_paramNames_of (h : NamesParams ts names) :
    g.paramNames.run (ts ++ s) = .ok (names, s) := by
  cases h with
  | @one t name h =>
    rw [paramNames, List.singleton_append, Parser.run_bind_of_eq run_next?_cons]
    dsimp only
    rw [if_pos h.kind, h.text]
    rfl
  | @group opening ts names hopening h =>
    have hget : ∀ u : List Token, (get : Parser (List Token)).run u = .ok (u, u) := fun _ => rfl
    rw [paramNames, List.cons_append, Parser.run_bind_of_eq run_next?_cons]
    dsimp only
    rw [if_neg (hopening ▸ by decide), if_pos hopening, Parser.run_bind_of_eq (hget _)]
    exact run_names_of h (by rw [List.length_append]; omega)

end Grammar

variable {params : List Param} {body : Expr}

theorem isLexedAs_names {names : List String} (hne : names ≠ []) (h : ∀ name ∈ names, IsName name) :
    IsLexedAs (fun _ => True) (", ".intercalate names ++ ")") (Grammar.NamesAll · names) := by
  have hmark : ∀ {text : String} {d : UInt8} {kind : TokenKind} {name : String}, IsName name →
      IsLexedAs (fun _ => True) text (IsMark kind) → encode text = d :: (encode text).tail →
      isWordByte d = false → IsLexedAs (fun _ => True) (name ++ text)
        fun ts => ∃ t u, ts = [t, u] ∧ Names t name ∧ u.kind = kind := by
    intro text d kind name hname htext hd hword
    refine (isLexedAs_name hname).append htext (fun v _ => Leads.avoids ⟨d, _, hd, hword⟩ v) ?_
    rintro us vs ⟨t, rfl, ht⟩ ⟨u, rfl, hu⟩
    exact ⟨t, u, rfl, ht, hu⟩
  induction names with
  | nil => exact absurd rfl hne
  | cons name names ih =>
    obtain ⟨hname, hnames⟩ := List.forall_mem_cons.1 h
    rcases names with _ | ⟨name', names⟩
    · rw [String.intercalate_singleton]
      have hclosing : IsLexedAs (fun _ => True) ")" (IsMark .parenRight) :=
        isLexedAs_mark rfl (by decide) fun _ => rfl
      refine (hmark hname hclosing rfl rfl).imp (fun _ => id) ?_
      rintro us ⟨t, u, rfl, ht, hu⟩
      exact .last ht hu
    · rw [String.intercalate_cons_cons, String.append_assoc]
      have hcomma : IsLexedAs (fun _ => True) ("," ++ " ") (IsMark .comma) :=
        (isLexedAs_mark rfl (by decide) fun _ => rfl).blank_right fun _ => trivial
      refine (hmark hname hcomma rfl rfl).append (ih nofun hnames) (fun _ _ => trivial) ?_
      rintro us vs ⟨t, u, rfl, ht, hu⟩ hvs
      exact .cons ht hu hvs

/-- The text of a lambda is made of its parameters, an arrow, and its body. -/
theorem exists_render_lambda (hne : params ≠ []) (h : ∀ p ∈ params, IsName p.name) :
    ∃ names, (Expr.lambda params body).render = names ++ (" " ++ "=>" ++ " ") ++ body.render ∧
      IsLexedAs (Avoids isWordByte) names (Grammar.NamesParams · (params.map (·.name))) := by
  by_cases hone : ∃ p, params = [p]
  · obtain ⟨p, rfl⟩ := hone
    refine ⟨p.name, rfl, (isLexedAs_name (h p List.mem_cons_self)).imp (fun _ => id) ?_⟩
    rintro us ⟨t, rfl, ht⟩
    exact .one ht
  · refine ⟨"(" ++ (", ".intercalate (params.map (·.name)) ++ ")"), ?_, ?_⟩
    · rw [Expr.render]
      · simp only [String.append_assoc]
        rfl
      · exact fun p hp => hone ⟨p, hp⟩
    · have hnames : ∀ name ∈ params.map (·.name), IsName name := by
        simpa using h
      refine ((isLexedAs_mark rfl (by decide) fun _ => rfl).append
        (isLexedAs_names (by simpa using hne) hnames) (fun _ _ => trivial) ?_).imp
        (fun _ _ => trivial) fun _ => id
      rintro us vs ⟨t, rfl, ht⟩ hvs
      exact .group ht hvs

/-- The tokens of a printed lambda. -/
theorem isBody_render {catalog : Catalog} {model : String} (hne : params ≠ [])
    (hparams : ∀ p ∈ params, IsName p.name ∧ p.model = model) (hbody : body.IsPrinted params) :
    ∃ us, Spells params us body ∧
      Grammar.IsBody catalog model (Expr.lambda params body).render { catalog, params } us := by
  obtain ⟨names, hrender, hnames⟩ := exists_render_lambda hne fun p hp => (hparams p hp).1
  have harrow : IsLexedAs (fun _ => True) (" " ++ "=>" ++ " ") (IsMark .arrow) :=
    Expr.isLexedAs_spaced rfl (by decide) fun _ => rfl
  have hhead : IsLexedAs (fun _ => True) (names ++ (" " ++ "=>" ++ " ")) fun ts => ∃ us arrow,
      ts = us ++ [arrow] ∧ Grammar.NamesParams us (params.map (·.name)) ∧ arrow.kind = .arrow := by
    refine hnames.append harrow (fun v _ => Leads.avoids ⟨32, _, rfl, rfl⟩ v) ?_
    rintro us vs hus ⟨arrow, rfl, harrow⟩
    exact ⟨us, arrow, rfl, hus, harrow⟩
  have hlambda : IsLexedAs Ends (Expr.lambda params body).render fun ts => ∃ us arrow vs,
      ts = us ++ arrow :: vs ∧ Grammar.NamesParams us (params.map (·.name)) ∧
        arrow.kind = .arrow ∧ Spells params vs body := by
    rw [hrender]
    refine hhead.append hbody.lexes (fun _ _ => trivial) ?_
    rintro us vs ⟨us, arrow, rfl, hus, harrow⟩ hvs
    exact ⟨us, arrow, vs, by simp, hus, harrow, hvs⟩
  obtain ⟨ts, place, ⟨us, arrow, vs, rfl, hus, harrow, hvs⟩, hlexes⟩ :=
    hlambda 0 [] ⟨nofun, nofun⟩
  have hall := hlexes [] (.done rfl)
  rw [List.append_nil, List.append_nil] at hall
  have htokens := Cursor.lexes_iff.1 hall
  refine ⟨vs, hvs, _, none, _, arrow :: vs, arrow, htokens, Grammar.run_paramNames_of hus,
    Grammar.run_expect_of_eq harrow, ?_⟩
  have hmap : (params.map (·.name)).map (fun name => (⟨name, model⟩ : Param)) = params := by
    rw [List.map_map]
    refine (List.map_congr_left fun p hp => ?_).trans (List.map_id params)
    obtain ⟨-, rfl⟩ := hparams p hp
    rfl
  rw [hmap]

/-- What is parsed from the text of a tree that was itself parsed from a text. If every part of the
tree reads back, it is a tree with the same skeleton; but the text fails if the expressions in it
nest too deep. -/
theorem parseLambda_render {catalog : Catalog} {model text : String} {tree : Expr}
    (h : parseLambda catalog model text = .ok tree) :
    ∃ params body, tree = .lambda params body ∧ (body.ReadsBack params →
      (tree.printedDepth ≤ maxDepth → ∃ tree', tree'.skeleton = tree.skeleton ∧
        parseLambda catalog model tree.render = .ok tree') ∧
      (maxDepth < tree.printedDepth → parseLambda catalog model tree.render = .error .tooDeep)) := by
  obtain ⟨params, body, rfl, hne, hparams, hnamed⟩ := isNamed_of_parseLambda h
  refine ⟨params, body, rfl, fun hback => ?_⟩
  obtain ⟨us, hus, hbody⟩ := isBody_render hne hparams (Expr.isPrinted hnamed hback)
  obtain ⟨g, s, hg⟩ := Grammar.exists_isBody_of_parseLambda h
  obtain ⟨_, _, heq, hheight⟩ := Grammar.height_of_lambdaOf (Grammar.parseLambda_of_isBody hg ▸ h)
  obtain ⟨rfl, rfl⟩ := Expr.lambda.inj heq
  let g : Grammar := { catalog, params }
  have hreads : g.Rereads maxDepth 0 body.printedDepth body []
      ((g.expression maxDepth 0).run (us ++ [])) :=
    g.rereads_of_spells rfl hus hheight (Nat.zero_le _) nofun nofun
  rw [List.append_nil] at hreads
  rw [Grammar.parseLambda_of_isBody hbody]
  obtain ⟨hdeep, herror⟩ | ⟨hfits, r, hr, hok⟩ := hreads.settles rfl nofun
  · exact ⟨fun hle => absurd hle hdeep, fun _ => Grammar.lambdaOf_eq_error herror⟩
  · refine ⟨fun _ => ⟨.lambda params r, by rw [Expr.skeleton, hr.skeleton, Expr.skeleton], ?_⟩,
      fun hlt => absurd hfits (Nat.not_le.2 hlt)⟩
    rw [StateT.run'_eq, Grammar.lambdaOf, Parser.run_bind_of_eq hok,
      Parser.run_bind_of_eq (Grammar.run_next?_nil rfl)]
    rfl

/-- A member that is compared with a string. -/
theorem parseLambda_render_equal :
    let params : List Param := [⟨"p", "Person"⟩]
    let name : Expr := .member (.param "p" "Person") "Person" "Name"
    let body : Expr := .binary .equal name (.ofValue (.string "x"))
    let tree : Expr := .lambda params body
    parseLambda default "Person" "p => p.Name == \"x\"" = .ok tree ∧ body.ReadsBack params ∧
      tree.render = "p => (p.Name == \"x\")" ∧ tree.printedDepth ≤ maxDepth ∧
      ∃ tree', tree'.skeleton = tree.skeleton ∧
        parseLambda default "Person" tree.render = .ok tree' := by
  intro params name body tree
  have hparse : parseLambda default "Person" "p => p.Name == \"x\"" = .ok tree := rfl
  have hparam : (Expr.param "p" "Person").ReadsBack params := Expr.readsBack_iff.2 ⟨trivial, nofun⟩
  have hname : name.ReadsBack params :=
    Expr.readsBack_iff.2 ⟨rfl, List.forall_mem_singleton.2 hparam⟩
  have hplain : IsPlain "x" := List.forall_mem_singleton.2 (by decide)
  have hstring : (Expr.ofValue (.string "x")).ReadsBack params :=
    Expr.readsBack_iff.2 ⟨hplain, nofun⟩
  have hback : body.ReadsBack params := Expr.readsBack_iff.2
    ⟨trivial, List.forall_mem_cons.2 ⟨hname, List.forall_mem_singleton.2 hstring⟩⟩
  obtain ⟨_, _, htree, hreads⟩ := parseLambda_render hparse
  obtain ⟨rfl, rfl⟩ := Expr.lambda.inj htree
  exact ⟨hparse, hback, rfl, by decide, (hreads hback).1 (by decide)⟩

/-- An operator before an owner, a backslash, and a parameter with the name of a type are not read
as they were printed. -/
theorem parseLambda_render_fails :
    let person : List Param := [⟨"p", "Person"⟩]
    let id : Expr := .member (.param "p" "Person") "Person" "Id"
    let signed : Expr := .lambda person (.member (.unary .negate id) "object" "Value")
    let escaped : Expr := .lambda person (.ofValue (.string "\\n"))
    let shadowed : Expr := .lambda [⟨"String", "Person"⟩]
      (.staticCall ⟨.string, "IsNullOrEmpty"⟩ [.param "String" "Person"])
    (parseLambda default "Person" "p => (-p.Id).Value" = .ok signed ∧
      signed.printedDepth ≤ maxDepth ∧ signed.render = "p => -p.Id.Value" ∧
      ∃ tree', parseLambda default "Person" signed.render = .ok tree' ∧
        tree'.skeleton ≠ signed.skeleton) ∧
    (parseLambda default "Person" "p => \"\\\\n\"" = .ok escaped ∧
      escaped.printedDepth ≤ maxDepth ∧ escaped.render = "p => \"\\n\"" ∧
      ∃ tree', parseLambda default "Person" escaped.render = .ok tree' ∧
        tree'.skeleton ≠ escaped.skeleton) ∧
    (parseLambda default "Person" "String => string.IsNullOrEmpty(String)" = .ok shadowed ∧
      shadowed.printedDepth ≤ maxDepth ∧
      shadowed.render = "String => String.IsNullOrEmpty(String)" ∧
      ∃ tree', parseLambda default "Person" shadowed.render = .ok tree' ∧
        tree'.skeleton ≠ shadowed.skeleton) := by
  intro person id signed escaped shadowed
  let negated : Expr := .lambda person (.unary .negate (.member id "object" "Value"))
  let newline : Expr := .lambda person (.ofValue (.string "\n"))
  let called : Expr := .lambda [⟨"String", "Person"⟩] (.call (.param "String" "Person")
    ⟨.other "Person", "IsNullOrEmpty"⟩ [.param "String" "Person"])
  have hsigned : signed.render = "p => -p.Id.Value" := rfl
  have hescaped : escaped.render = "p => \"\\n\"" := rfl
  have hshadowed : shadowed.render = "String => String.IsNullOrEmpty(String)" := rfl
  rw [hsigned, hescaped, hshadowed]
  refine ⟨⟨rfl, by decide, rfl, negated, rfl, ?_⟩, ⟨rfl, by decide, rfl, newline, rfl, ?_⟩,
    rfl, by decide, rfl, called, rfl, ?_⟩
  · simp [negated, signed, Expr.skeleton]
  · simp [newline, escaped, Expr.skeleton, Expr.ofValue]
  · simp [called, shadowed, Expr.skeleton]

end PredicateSql
