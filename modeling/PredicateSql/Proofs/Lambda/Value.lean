import PredicateSql.Proofs.Lambda.Lexing
import PredicateSql.Proofs.Lambda.Parsing

/-!
# The member `Value` in texts

The member `Value` unwraps nothing: after a chain of members of a parameter it may be written or
left out, as far as no declared type depends on it.

* `ChainEnd`: a text that is cut after a chain of members. `ChainEnd.exists_gap`: with and without
  `Value`, it has tokens that differ by that member.
* `ChainEnd.parseLambda_inserts`: it has trees that differ by that member.
* `Compiler.build_value`: it has one query. `build_value_fails`: a method on a member of a friend
  gets lost with `Value`.
-/

namespace PredicateSql

open Text.Utf8 (encode encode_append)

/-! ### Texts -/

/-- One text ends with a chain of members of a parameter, and the other one neither goes on with the
last of these nor calls it. -/
structure ChainEnd (before after : String) where
  /-- What comes before the chain. -/
  ahead : List Token
  param : Token
  members : List Token
  tokens_eq : tokenize (encode before) = (ahead ++ param :: members, none)
  /-- The parameter is no member itself. -/
  ahead_getLast : ∀ t ∈ ahead.getLast?, t.kind ≠ .dot
  param_kind : param.kind = .identifier
  isMembers : IsMembers members
  members_ne_nil : members ≠ []
  after_word : ∀ b ∈ (encode after).head?, isWordByte b = false
  after_call : ∀ t ∈ (tokenize (encode after)).1.head?, t.kind ≠ .parenLeft

/-- A text that starts with a point does not go on with a word. -/
theorem isWordByte_of_point {bytes : List UInt8} (h : bytes.head? = some 46) :
    ∀ b ∈ bytes.head?, isWordByte b = false := by
  intro b hb
  obtain rfl := Option.some.inj (h.symm.trans hb)
  decide

/-- The tokens of the member `Value`. -/
theorem exists_lexes_value (place : Nat) : ∃ dot value : Token,
    Cursor.Lexes ⟨place, encode ".Value"⟩ [dot, value] none ∧ dot.kind = .dot ∧
      value.kind = .identifier ∧ value.text = "Value" := by
  have htokens : tokenize (encode ".Value") =
      ([⟨.dot, 0, encode "."⟩, ⟨.identifier, 1, encode "Value"⟩], none) := by
    decide
  obtain ⟨ts, failure, hts, halike, hfailure⟩ := (Cursor.lexes_iff.2 htokens).move place
  obtain rfl := hfailure rfl
  rcases halike with _ | ⟨hdot, _ | ⟨hvalue, _ | _⟩⟩
  refine ⟨_, _, hts, hdot.kind.symm, hvalue.kind.symm, ?_⟩
  rw [← hvalue.text]
  decide

namespace ChainEnd

variable {before after : String} (h : ChainEnd before after)

theorem getLast?_kind : ∀ t ∈ (h.ahead ++ h.param :: h.members).getLast?, t.kind = .identifier := by
  intro t ht
  refine h.isMembers.getLast?_kind t ?_
  rwa [List.getLast?_append_of_ne_nil _ (List.cons_ne_nil _ _),
    List.getLast?_cons_of_ne_nil h.members_ne_nil] at ht

/-- The tokens of two texts, of which one has the member `Value` after the chain. -/
theorem exists_gap : ∃ (gap : Gap) (failure failure' : Option LexicalError),
    gap.param = h.param ∧
    tokenize (encode (before ++ after)) = (h.ahead ++ gap.short, failure) ∧
    tokenize (encode (before ++ ".Value" ++ after)) = (h.ahead ++ gap.long, failure') ∧
    (failure = none → failure' = none) := by
  have hbefore := Cursor.lexes_iff.2 h.tokens_eq
  cases htokens : tokenize (encode after) with | mk first failure =>
  have hcall := h.after_call
  rw [htokens] at hcall
  obtain ⟨ts, failure, hts, halike, -⟩ :=
    (Cursor.lexes_iff.2 htokens).move (0 + (encode before).length)
  obtain ⟨dot, value, hvalue, hdot, hkind, htext⟩ :=
    exists_lexes_value (0 + (encode before).length)
  obtain ⟨ts', failure', hts', halike', hfailure⟩ :=
    hts.move (0 + (encode before).length + (encode ".Value").length)
  let gap : Gap := {
    param := h.param
    members := h.members
    dot
    value
    after := ts
    after' := ts'
    param_kind := h.param_kind
    isMembers := h.isMembers
    members_ne_nil := h.members_ne_nil
    dot_kind := hdot
    value_kind := hkind
    value_text := htext
    after_alike := halike'
    after_head := by
      intro t ht
      cases halike with
      | nil => cases ht
      | @cons x _ _ _ hx hrest =>
        obtain rfl := Option.some.inj ht
        rw [← hx.kind]
        exact hcall x rfl }
  refine ⟨gap, failure, failure', rfl, Cursor.lexes_iff.1 ?_, Cursor.lexes_iff.1 ?_, hfailure⟩
  · have happend := hbefore.append h.getLast?_kind h.after_word hts
    rw [encode_append]
    simpa [Cursor.ofBytes, gap, Gap.short] using happend
  · have hvalues := hvalue.append (by simpa using hkind) h.after_word hts'
    have happend := hbefore.append h.getLast?_kind (isWordByte_of_point rfl) hvalues
    rw [encode_append, encode_append, List.append_assoc]
    simpa [Cursor.ofBytes, gap, Gap.long] using happend

/-- A text with the member `Value` after a chain is parsed to the tree of the text without it, with
that member added, unless the tree gets too high. -/
theorem parseLambda_inserts {catalog : Catalog} {model : String} {params : List Param} {body : Expr}
    (hparse : parseLambda catalog model (before ++ after) = .ok (.lambda params body))
    (hparam : ∃ param ∈ params, param.name = h.param.text) :
    parseLambda catalog model (before ++ ".Value" ++ after) = .error .tooDeep ∨
      ∃ e', parseLambda catalog model (before ++ ".Value" ++ after) = .ok e' ∧
        Expr.Inserts catalog (.lambda params body) e' := by
  obtain ⟨gap, failure, failure', heq, hshort, hlong, hfailure⟩ := h.exists_gap
  rw [parseLambda, hshort] at hparse
  rw [parseLambda, hlong]
  dsimp only at hparse ⊢
  obtain ⟨t, hrun⟩ := Parser.run'_eq_ok.1 hparse
  obtain rfl : failure = none := (Grammar.run_lambda_eq_ok hrun).1
  obtain rfl : failure' = none := hfailure rfl
  have hat : gap.At _ _ false (h.ahead ++ gap.short) (h.ahead ++ gap.long) :=
    ⟨.ahead h.ahead_getLast, Nat.le_refl _, Nat.le_refl _⟩
  obtain hdeep | ⟨e', t', hrun', hinserts⟩ := Grammar.lambda_matches hat hrun (heq ▸ hparam)
  · left
    rw [StateT.run'_eq, hdeep]
    rfl
  · exact .inr ⟨e', Parser.run'_eq_ok.2 ⟨t', hrun'⟩, hinserts⟩

end ChainEnd

/-! ### Queries -/

namespace Compiler

/-- A text with the member `Value` after a chain of members of a parameter is parsed to the tree of
the text without it, with that member added, unless the tree gets too high. The query is the same if
neither the methods around the chain nor the operands of a sum tell that the declared type of the
chain gets lost. -/
theorem build_value (c : Compiler) (r : Request) {model before after : String} {params : List Param}
    {body : Expr} (h : ChainEnd before after)
    (hparse : parseLambda c.context.catalog model (before ++ after) = .ok (.lambda params body))
    (hparam : ∃ param ∈ params, param.name = h.param.text) :
    parseLambda c.context.catalog model (before ++ ".Value" ++ after) = .error .tooDeep ∨
      ∃ e, parseLambda c.context.catalog model (before ++ ".Value" ++ after) = .ok e ∧
        Expr.Inserts c.context.catalog (.lambda params body) e ∧
        (c.context.InsertsUnseen (.lambda params body) e →
          c.build { r with filter := some (.lambda params body) } =
              c.build { r with filter := some e } ∧
            ∀ keys keys' descending,
              c.build { r with order := keys ++ ⟨.lambda params body, descending⟩ :: keys' } =
                c.build { r with order := keys ++ ⟨e, descending⟩ :: keys' }) := by
  obtain hdeep | ⟨e, hlong, hinserts⟩ := h.parseLambda_inserts hparse hparam
  · exact .inl hdeep
  exact .inr ⟨e, hlong, hinserts, fun hunseen => build_of_replaces r hunseen.replaces⟩

/-- People with a name, who may have a friend. -/
def befriended : Compiler where
  context := {
    catalog := ⟨[{
      name := "Person"
      properties := [
        { name := "Id", type := .int },
        { name := "Name", type := .string },
        { name := "IsActive", type := .bool },
        { name := "Friend", type := .model "Person", nullable := true, column := some "FriendId",
          reference := some ⟨"Person", "Id"⟩ }] }], List.pairwise_singleton _ _⟩
    evaluator := default }

/-- A chain that leads to a friend. -/
def friendEnd (after : String) (hpoint : (encode after).head? = some 46)
    (hcall : ∀ t ∈ (tokenize (encode after)).1.head?, t.kind ≠ .parenLeft) :
    ChainEnd "p => p.Friend" after where
  ahead := [⟨.identifier, 0, encode "p"⟩, ⟨.arrow, 2, encode "=>"⟩]
  param := ⟨.identifier, 5, encode "p"⟩
  members := [⟨.dot, 6, encode "."⟩, ⟨.identifier, 7, encode "Friend"⟩]
  tokens_eq := by decide
  ahead_getLast := by decide
  param_kind := rfl
  isMembers := .cons rfl rfl .nil
  members_ne_nil := List.cons_ne_nil _ _
  after_word := isWordByte_of_point hpoint
  after_call := hcall

/-- Whether a friend is active. -/
theorem build_value_friend :
    let parse := parseLambda befriended.context.catalog "Person"
    ∃ e e', parse ("p => p.Friend" ++ ".IsActive") = .ok e ∧
      parse ("p => p.Friend" ++ ".Value" ++ ".IsActive") = .ok e' ∧
      befriended.build { model := "Person", filter := some e } =
        befriended.build { model := "Person", filter := some e' } := by
  intro parse
  let place : Place := [.bodyOf [⟨"p", "Person"⟩]]
  let friend : Expr := .memberOf (.param "p" "Person") "Friend"
  have hshort : parse ("p => p.Friend" ++ ".IsActive") =
    .ok (place.fill (.member friend "Person" "IsActive")) := rfl
  have hlong : parse ("p => p.Friend" ++ ".Value" ++ ".IsActive") =
    .ok (place.fill (.member (.member friend "Person" "Value") "object" "IsActive")) := rfl
  have hunseen : befriended.context.InsertsUnseen
      (place.fill (.member friend "Person" "IsActive"))
      (place.fill (.member (.member friend "Person" "Value") "object" "IsActive")) :=
    .mk (.member (.value rfl)) (.cons (.refl _) .nil) rfl trivial
  obtain hdeep | ⟨e, he, -, hbuild⟩ := build_value befriended { model := "Person" }
    (friendEnd ".IsActive" rfl (by decide)) hshort ⟨_, List.mem_singleton_self _, rfl⟩
  · cases hdeep.symm.trans hlong
  · obtain rfl := Except.ok.inj (hlong.symm.trans he)
    exact ⟨_, _, hshort, hlong, (hbuild hunseen).1⟩

/-- The name of the friend is a text that is searched. With `Value`, the friend has no known type,
and the search is declared on `object`. -/
theorem build_value_fails :
    let parse := parseLambda befriended.context.catalog "Person"
    (∀ model ∈ befriended.context.catalog.models, model.find? "Value" = none) ∧
      Nonempty (ChainEnd "p => p.Friend" ".Name.Contains(\"B\")") ∧
      ∃ e e', parse ("p => p.Friend" ++ ".Name.Contains(\"B\")") = .ok e ∧
        parse ("p => p.Friend" ++ ".Value" ++ ".Name.Contains(\"B\")") = .ok e' ∧
        (∃ query, befriended.build { model := "Person", filter := some e } = .ok query) ∧
        ∃ error, befriended.build { model := "Person", filter := some e' } = .error error :=
  ⟨by decide, ⟨friendEnd _ rfl (by decide)⟩, _, _, rfl, rfl, ⟨_, rfl⟩, ⟨_, rfl⟩⟩

end Compiler

end PredicateSql
