import PredicateSql.Proofs.Lambda.Insertion

/-!
# Parsing two texts that differ by one member

From two lists of tokens that differ by the member `Value` after a chain of members of a parameter,
trees are parsed that differ by that member, unless the second one gets too high.

* `Gap.Reaches`: where two runs over such lists get to, and with which results.
* `items_matches`, `suffix_matches` and so on: each function of the grammar goes from one place of
  both lists to another. Only an operand may end between a parameter and the members that follow.
* `Grammar.expression_matches`: so does the whole grammar.
-/

namespace PredicateSql

open PredicateSql.Parser (Matches)
open PredicateSql.Expr (Fit FitAll)

/-! ### Places -/

namespace Gap

variable {gap : Gap} {n n' k k' : Nat} {p q r : Bool} {s s' t t' : List Token} {α : Type}
  {F : Bool → Bool → α → α → Prop} {a b : α}

/-- Two runs get from one place of the two lists to another, with no more tokens left than some
bounds, and with results that are as they may be between the two places. -/
def Reaches (gap : Gap) (n n' : Nat) (p : Bool) (F : Bool → Bool → α → α → Prop) :
    α → List Token → α → List Token → Prop :=
  fun a t b t' => ∃ q, gap.At n n' q t t' ∧ F p q a b

theorem Reaches.mono (h : gap.Reaches n n' p F a t b t') (hk : n ≤ k) (hk' : n' ≤ k') :
    gap.Reaches k k' p F a t b t' := by
  obtain ⟨q, hat, hab⟩ := h
  exact ⟨q, hat.mono hk hk', hab⟩

theorem At.self (h : gap.At n n' p s s') : gap.At s.length s'.length p s s' :=
  ⟨h.apart, Nat.le_refl _, Nat.le_refl _⟩

/-- Nested expressions are parsed alike, wherever they start. -/
def Nested (gap : Gap) (catalog : Catalog) (sub : Nat → Parser Expr) : Prop :=
  ∀ power ≤ 80, ∀ n n' p s s', gap.At n n' p s s' →
    Matches (sub power) (sub power) s s' (gap.Reaches n n' p (Fit catalog))

end Gap

namespace Grammar

variable {gap : Gap} {g : Grammar} {sub : Nat → Parser Expr} {n n' : Nat} {p : Bool}
  {s s' : List Token} {kind opening close : TokenKind} {what : String} {x x' : Token}

/-! ### Lists and casts -/

theorem items_matches (hg : g.failure = none) (hsub : gap.Nested g.catalog sub)
    (hclose : close ≠ .identifier) {count count' : Nat} (hn : n < count) (hn' : n' < count')
    (h : gap.At n n' p s s') :
    Matches (g.items sub close count) (g.items sub close count') s s'
      (gap.Reaches n n' p (FitAll g.catalog)) := by
  induction count generalizing count' n n' p s s' with
  | zero => exact absurd hn n.not_lt_zero
  | succ count ih =>
    cases count' with
    | zero => exact absurd hn' n'.not_lt_zero
    | succ count' =>
      rw [items, items]
      refine (hsub 0 (Nat.zero_le _) n n' p s s' h).bind fun e t e' t' he => ?_
      obtain ⟨q, ht, he⟩ := he
      refine (consume_matches hg hclose ht).bind fun b u b' u' hb => ?_
      obtain ⟨rfl, hu, -⟩ := hb
      refine .ite Iff.rfl (fun _ => .pure ⟨q, hu, .cons he (.same q [])⟩) fun _ => ?_
      refine (next_matches hg (hu.mono n.le_succ n'.le_succ)).bind fun y v y' v' hy => ?_
      obtain ⟨rfl, rfl, htakes⟩ := hy
      dsimp only
      refine .guard (by rw [htakes.alike.kind]) fun hcomma => ?_
      have hcomma : y.kind = .comma := not_not.1 hcomma
      have hv := htakes.at_of_kind (by rw [hcomma]; nofun)
      -- The comma is gone, so fewer tokens are left than before.
      have hlt : v.length < n := hu.length
      have hlt' : v'.length < n' := hu.length'
      have hcount : v.length < count := Nat.lt_of_lt_of_le hlt (Nat.le_of_lt_succ hn)
      have hcount' : v'.length < count' := Nat.lt_of_lt_of_le hlt' (Nat.le_of_lt_succ hn')
      refine (ih hcount hcount' hv.self).bind fun es w es' w' hes => ?_
      obtain ⟨r, hw, hes⟩ := hes
      exact .pure ⟨r, hw.mono (Nat.le_of_lt hlt) (Nat.le_of_lt hlt'), .cons he hes⟩

theorem list_matches (hg : g.failure = none) (hsub : gap.Nested g.catalog sub)
    (hopening : opening ≠ .identifier) (hclose : close ≠ .identifier) (h : gap.At n n' p s s') :
    Matches (g.list sub opening close) (g.list sub opening close) s s'
      (gap.Reaches n n' p (FitAll g.catalog)) := by
  refine (next_matches hg (h.mono n.le_succ n'.le_succ)).bind fun y t y' t' hy => ?_
  obtain ⟨rfl, rfl, htakes⟩ := hy
  dsimp only
  refine .guard (by rw [htakes.alike.kind]) fun hkind => ?_
  have ht := htakes.at_of_kind (by rw [not_not.1 hkind]; exact hopening)
  refine (consume_matches hg hclose ht).bind fun b u b' u' hb => ?_
  obtain ⟨rfl, hu, -⟩ := hb
  refine .ite Iff.rfl (fun _ => .pure ⟨p, hu, .same p []⟩) fun _ => ?_
  refine Parser.Matches.get.bind fun _ _ _ _ hget => ?_
  obtain ⟨rfl, rfl, rfl, rfl⟩ := hget
  refine (items_matches hg hsub hclose (Nat.lt_succ_self _) (Nat.lt_succ_self _)
    hu.self).mono fun _ _ _ _ hitems => ?_
  exact hitems.mono hu.length hu.length'

theorem cast_matches (hg : g.failure = none) (h : gap.At n n' p s s') :
    Matches g.cast g.cast s s' fun b t b' t' => b = b' ∧ gap.At n n' p t t' := by
  refine Parser.Matches.get.bind fun _ _ _ _ hget => ?_
  obtain ⟨rfl, rfl, rfl, rfl⟩ := hget
  refine (next?_matches hg (h.mono n.le_succ n'.le_succ)).bind fun o t o' t' ho => ?_
  obtain ⟨rfl, rfl, rfl, rfl, rfl, rfl⟩ | ⟨y, y', rfl, rfl, rfl, rfl, htakes⟩ := ho
  · exact .pure ⟨rfl, h⟩
  have hback : ∀ u u', Matches (do set (y :: t); pure false) (do set (y' :: t'); pure false) u u'
      fun b v b' v' => b = b' ∧ gap.At n n' p v v' := by
    intro u u'
    refine Parser.Matches.set.bind fun _ _ _ _ hset => ?_
    obtain ⟨rfl, rfl⟩ := hset
    exact .pure ⟨rfl, h⟩
  refine .ite (by rw [htakes.alike.kind, htakes.alike.text]) (fun _ => ?_) fun _ => hback _ _
  obtain ht | ⟨-, -, -, dot, u, u', hdot, rfl, rfl⟩ := htakes.cases
  · refine (consume_matches hg (by decide) ht).bind fun _ u _ u' hu => ?_
    refine (consume_matches hg (by decide) hu.2.1).bind fun b v b' v' hb => ?_
    obtain ⟨rfl, hv, -⟩ := hb
    exact .ite Iff.rfl (fun _ => .pure ⟨rfl, hv⟩) fun _ => hback _ _
  · -- The parameter of a chain may be called like a type, but no cast has a dot in it.
    refine (consume_dot_matches hdot (by decide)).bind fun _ _ _ _ hu => ?_
    obtain ⟨-, -, rfl, rfl⟩ := hu
    refine (consume_dot_matches hdot (by decide)).bind fun _ _ _ _ hv => ?_
    obtain ⟨rfl, rfl, rfl, rfl⟩ := hv
    exact hback _ _

/-! ### Operands -/

theorem typeName_matches (hg : g.failure = none) (hx : x.Alike x') (h : gap.At n n' p s s') :
    Matches (g.typeName x) (g.typeName x') s s' fun a t a' t' => a = a' ∧ gap.At n n' p t t' := by
  refine (consume_matches hg (by decide) h).bind fun b t b' t' hb => ?_
  obtain ⟨rfl, ht, -⟩ := hb
  refine .ite Iff.rfl (fun _ => ?_) fun _ => ?_
  · refine (expect_identifier_matches hg (ht.mono n.le_succ n'.le_succ)).bind fun y u y' u' hy => ?_
    obtain hu | ⟨-, -, -, dot, v, v', hdot, rfl, rfl⟩ := hy.cases
    · refine (expect_matches hg (by decide) hu).bind fun _ v _ v' hv => ?_
      exact .pure ⟨by rw [hx.text, hy.alike.text], hv.2⟩
    · exact expect_dot_bind_matches hdot (by decide)
  · refine (consume_matches hg (by decide) ht).bind fun b u b' u' hb => ?_
    obtain ⟨rfl, hu, -⟩ := hb
    refine .ite Iff.rfl (fun _ => ?_) fun _ => .pure ⟨hx.text, hu⟩
    refine (expect_matches hg (by decide) hu).bind fun _ v _ v' hv => ?_
    exact .pure ⟨by rw [hx.text], hv.2⟩

theorem typeName_dot_matches {dot : Token} (hdot : dot.kind = .dot) :
    Matches (g.typeName x) (g.typeName x') (dot :: s) (dot :: s') fun _ t _ t' =>
      t = dot :: s ∧ t' = dot :: s' := by
  refine (consume_dot_matches hdot (by decide)).bind fun _ _ _ _ ht => ?_
  obtain ⟨rfl, rfl, rfl, rfl⟩ := ht
  refine (consume_dot_matches hdot (by decide)).bind fun _ _ _ _ hu => ?_
  obtain ⟨rfl, rfl, rfl, rfl⟩ := hu
  exact .pure ⟨rfl, rfl⟩

theorem new_matches (hg : g.failure = none) (hsub : gap.Nested g.catalog sub)
    (h : gap.At n n' p s s') :
    Matches (g.new sub) (g.new sub) s s' (gap.Reaches n n' p (Fit g.catalog)) := by
  refine (consume_matches hg (by decide) h).bind fun b t b' t' hb => ?_
  obtain ⟨rfl, ht, -⟩ := hb
  refine .ite Iff.rfl (fun _ => ?_) fun _ => ?_
  · refine (expect_matches hg (by decide) ht).bind fun _ u _ u' hu => ?_
    refine (list_matches hg hsub (by decide) (by decide) hu.2).bind fun es v es' v' hes => ?_
    obtain ⟨q, hv, hes⟩ := hes
    exact .pure ⟨q, hv, Fit.array_elementType hes⟩
  refine (expect_identifier_matches hg (ht.mono n.le_succ n'.le_succ)).bind fun y u y' u' hy => ?_
  obtain hu | ⟨-, -, -, dot, v, v', hdot, rfl, rfl⟩ := hy.cases
  · refine (typeName_matches hg hy.alike hu).bind fun type v type' v' hv => ?_
    obtain ⟨rfl, hv⟩ := hv
    refine (comesNext_matches hg hv).bind fun b _ b' _ hb => ?_
    obtain ⟨rfl, rfl, rfl⟩ := hb
    refine .ite Iff.rfl (fun _ => ?_) fun _ => ?_
    · refine (list_matches hg hsub (by decide) (by decide) hv).bind fun es w es' w' hes => ?_
      obtain ⟨q, hw, hes⟩ := hes
      exact .pure ⟨q, hw, .new type hes⟩
    · refine (comesNext_matches hg hv).bind fun b _ b' _ hb => ?_
      obtain ⟨rfl, rfl, rfl⟩ := hb
      refine .ite Iff.rfl (fun _ => ?_) fun _ => .throw
      cases ValueType.ofName type with
      | list elementType =>
        refine (list_matches hg hsub (by decide) (by decide) hv).bind fun es w es' w' hes => ?_
        obtain ⟨q, hw, hes⟩ := hes
        exact .pure ⟨q, hw, .array elementType hes⟩
      | _ => exact .throw
  · -- After a type name comes a bracket or a brace, and no dot.
    refine (typeName_dot_matches hdot).bind fun type _ type' _ hw => ?_
    obtain ⟨rfl, rfl⟩ := hw
    refine comesNext_cons_matches.bind fun _ _ _ _ hb => ?_
    obtain ⟨rfl, rfl, rfl, rfl⟩ := hb
    rw [hdot]
    refine comesNext_cons_matches.bind fun _ _ _ _ hb => ?_
    obtain ⟨rfl, rfl, rfl, rfl⟩ := hb
    rw [hdot]
    exact .throw

theorem identifier_matches (hg : g.failure = none) (hsub : gap.Nested g.catalog sub)
    (hx : x.Alike x') (h : gap.At n n' p s s') :
    Matches (g.identifier sub x) (g.identifier sub x') s s'
      (gap.Reaches n n' p (Fit g.catalog)) := by
  rw [identifier, identifier, hx.text]
  dsimp only
  cases g.params.find? (·.name == x'.text) with
  | some param => exact .pure ⟨p, h, .same p _⟩
  | none =>
    refine .guard Iff.rfl fun _ => ?_
    refine (consume_matches hg (by decide) h).bind fun b t b' t' hb => ?_
    obtain ⟨rfl, -, htaken⟩ := hb
    refine .guard Iff.rfl fun hb => ?_
    obtain ⟨dot, dot', rfl, rfl, hdot⟩ := htaken (by simpa using hb)
    refine (expect_name_matches hg hdot h).bind fun name u name' u' hname => ?_
    obtain ⟨hname, hu⟩ := hname
    have hu := hu.mono (Nat.le_of_succ_le h.length) (Nat.le_of_succ_le h.length')
    refine (comesNext_matches hg hu).bind fun b _ b' _ hb => ?_
    obtain ⟨rfl, rfl, rfl⟩ := hb
    rw [hname.text]
    refine .ite Iff.rfl (fun _ => ?_) fun _ => .pure ⟨p, hu, .same p _⟩
    refine (list_matches hg hsub (by decide) (by decide) hu).bind fun es v es' v' hes => ?_
    obtain ⟨q, hv, hes⟩ := hes
    exact .pure ⟨q, hv, .staticCall _ hes⟩

/-- Where an operand may end: at some place of both lists, or right after the parameter of the chain
to which `Value` is added. -/
inductive Operand (gap : Gap) (catalog : Catalog) (n n' : Nat) (p : Bool) :
    Expr → List Token → Expr → List Token → Prop
  | reaches {e e' : Expr} {t t' : List Token} (h : gap.Reaches n n' p (Fit catalog) e t e' t') :
    Operand gap catalog n n' p e t e' t'
  | param (name model : String) (hp : p = false) (h : (gap.members ++ gap.after).length ≤ n)
    (h' : (gap.members ++ gap.dot :: gap.value :: gap.after').length ≤ n') :
    Operand gap catalog n n' p (.param name model) (gap.members ++ gap.after) (.param name model)
      (gap.members ++ gap.dot :: gap.value :: gap.after')

theorem operand_matches (hg : g.failure = none) (hsub : gap.Nested g.catalog sub)
    (hparam : (g.params.find? (·.name == gap.param.text)).isSome) (h : gap.At n n' p s s') :
    Matches (g.operand sub) (g.operand sub) s s' (Operand gap g.catalog n n' p) := by
  refine (next_matches hg (h.mono n.le_succ n'.le_succ)).bind fun y t y' t' hy => ?_
  obtain ⟨rfl, rfl, htakes⟩ := hy
  cases htakes with
  | param hlength hlength' =>
    obtain ⟨param, hparam⟩ := Option.isSome_iff_exists.1 hparam
    rw [gap.param_kind]
    show Matches (g.identifier sub gap.param) (g.identifier sub gap.param) _ _ _
    rw [identifier, hparam]
    exact .pure (.param _ _ rfl hlength hlength')
  | token hx ht =>
    have hprefix : ∀ (op : UnaryOp) {u u' : List Token}, gap.At n n' p u u' →
        Matches (do return .unary op (← sub prefixPower)) (do return .unary op (← sub prefixPower))
          u u' (Operand gap g.catalog n n' p) := by
      intro op u u' hu
      refine (hsub prefixPower (by decide) n n' p u u' hu).bind fun e v e' v' he => ?_
      obtain ⟨q, hv, he⟩ := he
      exact .pure (.reaches ⟨q, hv, he.unary op⟩)
    have hsame : ∀ e, Operand gap g.catalog n n' p e t e t' := fun e =>
      .reaches ⟨p, ht, .same p e⟩
    have hstring : Matches (string y) (string y') t t' (Operand gap g.catalog n n' p) := by
      rw [string, string, hx.text]
      cases unescape? y'.text.toList with
      | some text => exact .pure (hsame _)
      | none => exact .throw
    rw [hx.kind]
    cases y'.kind with
    | parenLeft =>
      refine (cast_matches hg ht).bind fun b u b' u' hb => ?_
      obtain ⟨rfl, hu⟩ := hb
      refine .ite Iff.rfl (fun _ => hprefix .convert hu) fun _ => ?_
      refine (hsub 0 (by decide) n n' p u u' hu).bind fun e v e' v' he => ?_
      obtain ⟨q, hv, he⟩ := he
      refine (expect_matches hg (by decide) hv).bind fun _ w _ w' hw => ?_
      exact .pure (.reaches ⟨q, hw.2, he⟩)
    | bang => exact hprefix .not ht
    | minus => exact hprefix .negate ht
    | number =>
      show Matches (number y) (number y') _ _ _
      rw [number, number, hx.text]
      cases number? y'.text.toList with
      | some e => exact .pure (hsame e)
      | none => exact .throw
    | string => exact hstring
    | char => exact hstring
    | verbatimString =>
      rw [hx.text]
      exact .pure (hsame _)
    | true => exact .pure (hsame _)
    | false => exact .pure (hsame _)
    | null => exact .pure (hsame _)
    | new => exact (new_matches hg hsub ht).mono fun _ _ _ _ => .reaches
    | identifier => exact (identifier_matches hg hsub hx ht).mono fun _ _ _ _ => .reaches
    | _ => exact .throw

/-! ### Operators -/

theorem suffix_matches (hg : g.failure = none) (hsub : gap.Nested g.catalog sub) {q : Bool}
    {owner owner' : Expr} (hx : x.kind = .dot ∨ x.kind = .bracketLeft)
    (h : gap.At n n' q (x :: s) (x' :: s')) (howner : Fit g.catalog p q owner owner') :
    Matches (g.suffix sub owner) (g.suffix sub owner') (x :: s) (x' :: s')
      (gap.Reaches s.length s'.length p (Fit g.catalog)) := by
  refine (next_matches hg (h.self)).bind fun y t y' t' hy => ?_
  obtain ⟨hs, hs', htakes⟩ := hy
  obtain ⟨rfl, rfl⟩ := List.cons.inj hs
  obtain ⟨rfl, rfl⟩ := List.cons.inj hs'
  have hs : gap.At s.length s'.length q s s' :=
    htakes.at_of_kind (by rcases hx with hx | hx <;> rw [hx] <;> decide)
  refine .ite (by rw [htakes.alike.kind]) (fun _ => ?_) fun hbracket => ?_
  · refine (hsub 0 (by decide) _ _ q s s' hs).bind fun e t e' t' he => ?_
    obtain ⟨r, ht, he⟩ := he
    refine (expect_matches hg (by decide) ht).bind fun _ u _ u' hu => ?_
    exact .pure ⟨r, hu.2, howner.binary .index he⟩
  · refine (expect_name_matches hg (hx.resolve_right hbracket) h).bind
      fun name t name' t' hname => ?_
    obtain ⟨hname, ht⟩ := hname
    refine (comesNext_matches hg ht).bind fun b _ b' _ hb => ?_
    obtain ⟨rfl, rfl, rfl⟩ := hb
    rw [hname.text]
    refine .ite Iff.rfl (fun _ => ?_) fun _ => .pure ⟨q, ht, howner.member _⟩
    refine (list_matches hg hsub (by decide) (by decide) ht).bind fun es u es' u' hes => ?_
    obtain ⟨r, hu, hes⟩ := hes
    exact .pure ⟨r, hu, howner.call _ hes⟩

/-- The level of a tree matters only if it is too high. -/
theorem checkLevels_matches {levels levels' : Nat} :
    Matches (checkLevels levels) (checkLevels levels') s s' fun _ t _ t' => t = s ∧ t' = s' := by
  intro a t ht
  have ht : t = s := by
    unfold checkLevels at ht
    split at ht <;> cases ht
    rfl
  unfold checkLevels
  split
  · exact .inr ⟨_, s', rfl, ht, rfl⟩
  · exact .inl rfl

theorem infixPowers?_le {kind : TokenKind} {left right : Nat}
    (h : infixPowers? kind = some (left, right)) : right ≤ 80 := by
  cases kind <;> cases h <;> decide

theorem between_matches (hg : g.failure = none) (hsub : gap.Nested g.catalog sub) {q : Bool}
    {right levels levels' : Nat} {left left' : Expr} (hright : right ≤ 80) (hx : x.Alike x')
    (h : gap.At n n' q s s') (hleft : Fit g.catalog p q left left') :
    Matches (g.between sub x right left levels) (g.between sub x' right left' levels') s s'
      fun a t b t' => gap.Reaches n n' p (Fit g.catalog) a.1 t b.1 t' := by
  refine .ite (by rw [hx.kind]) (fun _ => ?_) fun _ => ?_
  · refine (hsub 0 (by decide) n n' q s s' h).bind fun e t e' t' he => ?_
    obtain ⟨r, ht, he⟩ := he
    refine (expect_matches hg (by decide) ht).bind fun _ u _ u' hu => ?_
    refine (hsub right hright n n' r u u' hu.2).bind fun f v f' v' hf => ?_
    obtain ⟨k, hv, hf⟩ := hf
    exact .pure ⟨k, hv, hleft.conditional he hf⟩
  · refine (hsub right hright n n' q s s' h).bind fun e t e' t' he => ?_
    obtain ⟨r, ht, he⟩ := he
    rw [hx.kind]
    cases binaryOp? x'.kind with
    | none => exact .throw
    | some op => exact .pure ⟨r, ht, hleft.binary op he⟩

theorem operators_matches (hg : g.failure = none) (hsub : gap.Nested g.catalog sub) {q : Bool}
    {power count count' levels levels' : Nat} {left left' : Expr} (hn : n < count) (hn' : n' < count')
    (h : gap.At n n' q s s') (hleft : Fit g.catalog p q left left') :
    Matches (g.operators sub power count left levels) (g.operators sub power count' left' levels')
      s s' (gap.Reaches n n' p (Fit g.catalog)) := by
  induction count generalizing count' n n' q s s' left left' levels levels' with
  | zero => exact absurd hn n.not_lt_zero
  | succ count ih =>
    cases count' with
    | zero => exact absurd hn' n'.not_lt_zero
    | succ count' =>
      rw [operators, operators]
      refine (peek?_matches hg h).bind fun o t o' t' ho => ?_
      obtain ⟨rfl, rfl, ⟨rfl, rfl⟩ | ⟨x, x', u, u', rfl, rfl, rfl, rfl, hx⟩⟩ := ho
      · exact .pure ⟨q, h, hleft⟩
      have hstop := Parser.Matches.pure (R := gap.Reaches n n' p (Fit g.catalog))
        (show gap.Reaches n n' p (Fit g.catalog) left (x :: u) left' (x' :: u') from ⟨q, h, hleft⟩)
      -- A turn takes at least one token, so the count of those that are left goes down.
      have hlt : u.length < n := h.length
      have hlt' : u'.length < n' := h.length'
      have hcount : u.length < count := Nat.lt_of_lt_of_le hlt (Nat.le_of_lt_succ hn)
      have hcount' : u'.length < count' := Nat.lt_of_lt_of_le hlt' (Nat.le_of_lt_succ hn')
      have hnext : ∀ {tree tree' : Expr} {levels levels' : Nat} {v v' : List Token},
          gap.Reaches u.length u'.length p (Fit g.catalog) tree v tree' v' →
          Matches (do checkLevels levels; g.operators sub power count tree levels)
            (do checkLevels levels'; g.operators sub power count' tree' levels') v v'
            (gap.Reaches n n' p (Fit g.catalog)) := by
        intro tree tree' levels levels' v v' htree
        obtain ⟨r, hv, htree⟩ := htree
        refine checkLevels_matches.bind fun _ _ _ _ hlevels => ?_
        obtain ⟨rfl, rfl⟩ := hlevels
        exact (ih hcount hcount' hv htree).mono fun _ _ _ _ hw =>
          hw.mono (Nat.le_of_lt hlt) (Nat.le_of_lt hlt')
      dsimp only
      rw [hx.kind]
      cases hpostfix : postfixPower? x'.kind with
      | some power' =>
        refine .ite Iff.rfl (fun _ => hstop) fun _ => ?_
        have hkind : x.kind = .dot ∨ x.kind = .bracketLeft := by
          rw [hx.kind]
          revert hpostfix
          cases x'.kind <;> simp [postfixPower?]
        exact (suffix_matches hg hsub hkind h hleft).bind fun _ _ _ _ htree => hnext htree
      | none =>
        cases hinfix : infixPowers? x'.kind with
        | none => exact hstop
        | some powers =>
          obtain ⟨power', right⟩ := powers
          refine .ite Iff.rfl (fun _ => hstop) fun _ => ?_
          refine (next_matches hg h.self).bind fun y v y' v' hy => ?_
          obtain ⟨hs, hs', htakes⟩ := hy
          obtain ⟨rfl, rfl⟩ := List.cons.inj hs
          obtain ⟨rfl, rfl⟩ := List.cons.inj hs'
          have hv := htakes.at_of_kind (by
            rw [hx.kind]
            rintro heq
            rw [heq] at hinfix
            cases hinfix)
          refine (between_matches hg hsub (infixPowers?_le hinfix) hx hv hleft).bind
            fun a _ b _ htree => ?_
          exact hnext htree

/-! ### Chains of members -/

theorem run_comesNext (hg : g.failure = none) (h : ∀ t ∈ s.head?, t.kind ≠ kind) :
    (g.comesNext kind).run s = .ok (false, s) := by
  cases s with
  | nil =>
    rw [comesNext, peek?, hg]
    rfl
  | cons x rest =>
    have hx : (x.kind == kind) = false := beq_false_of_ne (h x rfl)
    show Except.ok (x.kind == kind, x :: rest) = _
    rw [hx]

theorem run_suffix_member (hg : g.failure = none) {dot name : Token} {rest : List Token}
    {left : Expr} (hdot : dot.kind = .dot) (hname : name.kind = .identifier)
    (hrest : ∀ t ∈ rest.head?, t.kind ≠ .parenLeft) :
    (g.suffix sub left).run (dot :: name :: rest) =
      .ok (.member left (left.declaringName g.catalog) name.text, rest) := by
  have hexpect : (g.expect .identifier "a member name").run (name :: rest) = .ok (name, rest) := by
    show (if name.kind = .identifier then Pure.pure name else _ : Parser Token).run rest = _
    rw [if_pos hname]
    rfl
  rw [suffix, Parser.run_bind_of_eq run_next_cons, if_neg (by rw [hdot]; decide),
    Parser.run_bind_of_eq hexpect]
  dsimp only
  rw [Parser.run_bind_of_eq (run_comesNext hg hrest)]
  rfl

/-- One turn of the loop, which takes a member. -/
theorem run_operators_member (hg : g.failure = none) {dot name : Token} {rest : List Token}
    {power count levels : Nat} {left : Expr} (hpower : power ≤ 80) (hdot : dot.kind = .dot)
    (hname : name.kind = .identifier) (hrest : ∀ t ∈ rest.head?, t.kind ≠ .parenLeft) :
    (g.operators sub power (count + 1) left levels).run (dot :: name :: rest) =
      (do
        checkLevels (levels + 1)
        g.operators sub power count (.member left (left.declaringName g.catalog) name.text)
          (levels + 1) : Parser Expr).run rest := by
  rw [operators, Parser.run_bind_of_eq run_peek?_cons]
  dsimp only
  rw [hdot]
  show (if 80 < power then _ else _ : Parser Expr).run _ = _
  rw [if_neg (Nat.not_lt.2 hpower), Parser.run_bind_of_eq (run_suffix_member hg hdot hname hrest)]
  simp only [suffixHeight, Nat.max_zero]

theorem operators_members_matches (hg : g.failure = none) (hsub : gap.Nested g.catalog sub)
    {power : Nat} (hpower : power ≤ 80) {members : List Token} (hmembers : IsMembers members)
    {count count' levels levels' : Nat} {left : Expr} {names : List String}
    (hleft : left.members? [] = some names) (hne : members = [] → names ≠ [])
    (hcount : (members ++ gap.after).length < count)
    (hcount' : (members ++ gap.dot :: gap.value :: gap.after').length < count')
    (hn : (members ++ gap.after).length ≤ n)
    (hn' : (members ++ gap.dot :: gap.value :: gap.after').length ≤ n') :
    Matches (g.operators sub power count left levels) (g.operators sub power count' left levels')
      (members ++ gap.after) (members ++ gap.dot :: gap.value :: gap.after')
      (gap.Reaches n n' false (Fit g.catalog)) := by
  induction hmembers generalizing count count' levels levels' left names with
  | nil =>
    cases count' with
    | zero => exact absurd hcount' (Nat.not_lt_zero _)
    | succ count' =>
      -- Only the second list has one more member, and then both are past the gap.
      refine .of_run rfl
        (run_operators_member hg hpower gap.dot_kind gap.value_kind gap.after_head') ?_
      refine .checkLevels_right ?_
      have hnames : ∃ first rest, names = first :: rest := List.exists_cons_of_ne_nil (hne rfl)
      obtain ⟨first, rest, rfl⟩ := hnames
      rw [gap.value_text]
      simp only [List.nil_append, List.length_cons] at hcount hcount' hn hn'
      have hlt : gap.after'.length < count' := by omega
      have hle : gap.after'.length ≤ n' := by omega
      exact (operators_matches hg hsub hcount hlt (q := true)
        ⟨.past gap.after_alike, Nat.le_refl _, Nat.le_refl _⟩
        (.inserted (Expr.AddsValue.value hleft).inserts)).mono fun _ _ _ _ h => h.mono hn hle
  | @cons dot name rest hdot hname hrest ih =>
    cases count with
    | zero => exact absurd hcount (Nat.not_lt_zero _)
    | succ count =>
      cases count' with
      | zero => exact absurd hcount' (Nat.not_lt_zero _)
      | succ count' =>
        have hvalue : ∀ t ∈ (gap.dot :: gap.value :: gap.after').head?, t.kind ≠ .parenLeft := by
          intro t ht
          obtain rfl := Option.some.inj ht
          rw [gap.dot_kind]
          decide
        refine .of_run (run_operators_member hg hpower hdot hname (hrest.head_ne gap.after_head))
          (run_operators_member hg hpower hdot hname (hrest.head_ne hvalue)) ?_
        refine checkLevels_matches.bind fun _ _ _ _ hlevels => ?_
        obtain ⟨rfl, rfl⟩ := hlevels
        have hmember : (Expr.member left (left.declaringName g.catalog) name.text).members? [] =
            some (names ++ [name.text]) := by
          have happend := left.members?_append [] [name.text]
          rwa [hleft] at happend
        simp only [List.cons_append, List.length_cons] at hcount hcount' hn hn'
        exact ih hmember (fun _ => by simp) (by omega) (by omega) (by omega) (by omega)

/-! ### Expressions -/

/-- Before the gap and after it, and around it, expressions are parsed alike. -/
theorem expression_matches (hg : g.failure = none)
    (hparam : (g.params.find? (·.name == gap.param.text)).isSome) :
    ∀ depth, gap.Nested g.catalog (g.expression depth)
  | 0 => fun _ _ _ _ _ _ _ _ => .throw
  | depth + 1 => by
    intro power hpower n n' p s s' h
    have hsub := expression_matches hg hparam depth
    refine (operand_matches hg hsub hparam h).bind fun e t e' t' he => ?_
    refine checkLevels_matches.bind fun _ _ _ _ hlevels => ?_
    obtain ⟨rfl, rfl⟩ := hlevels
    refine Parser.Matches.get.bind fun _ _ _ _ hget => ?_
    obtain ⟨rfl, rfl, rfl, rfl⟩ := hget
    cases he with
    | reaches h =>
      obtain ⟨q, ht, he⟩ := h
      exact (operators_matches hg hsub (Nat.lt_succ_self _) (Nat.lt_succ_self _) ht.self he).mono
        fun _ _ _ _ h => h.mono ht.length ht.length'
    | param name model hp hlength hlength' =>
      subst hp
      have hnames : (Expr.param name model).members? [] = some [] := rfl
      exact operators_members_matches hg hsub hpower gap.isMembers hnames
        (fun h => absurd h gap.members_ne_nil) (Nat.lt_succ_self _) (Nat.lt_succ_self _) hlength
        hlength'

/-! ### Lambdas -/

/-- After the names of the parameters, both lists are at some place, or, if the parameter of the
chain was taken for the last name, at a dot. -/
def Named (gap : Gap) (n n' : Nat) (p : Bool) :
    List String → List Token → List String → List Token → Prop :=
  fun names t names' t' => names = names' ∧
    (gap.At n n' p t t' ∨ ∃ dot u u', dot.kind = .dot ∧ t = dot :: u ∧ t' = dot :: u')

theorem names_matches (hg : g.failure = none) {count count' : Nat} (hn : n < count)
    (hn' : n' < count') (h : gap.At n n' p s s') :
    Matches (g.names count) (g.names count') s s' (Named gap n n' p) := by
  induction count generalizing count' n n' s s' with
  | zero => exact absurd hn n.not_lt_zero
  | succ count ih =>
    cases count' with
    | zero => exact absurd hn' n'.not_lt_zero
    | succ count' =>
      rw [names, names]
      refine (expect_identifier_matches hg (h.mono n.le_succ n'.le_succ)).bind
        fun y t y' t' hy => ?_
      obtain ht | ⟨-, -, -, dot, u, u', hdot, rfl, rfl⟩ := hy.cases
      · refine (consume_matches hg (by decide) ht).bind fun b u b' u' hb => ?_
        obtain ⟨rfl, hu, htaken⟩ := hb
        refine .ite Iff.rfl (fun hb => ?_) fun _ => ?_
        · obtain ⟨comma, comma', rfl, rfl, -⟩ := htaken hb
          have hlt : u.length < n := ht.length
          have hlt' : u'.length < n' := ht.length'
          refine (ih (by omega) (by omega) hu.self).bind fun names v names' v' hnames => ?_
          obtain ⟨rfl, hv⟩ := hnames
          exact .pure ⟨by rw [hy.alike.text],
            hv.imp_left fun hv => hv.mono (Nat.le_of_lt hlt) (Nat.le_of_lt hlt')⟩
        · refine (expect_matches hg (by decide) hu).bind fun _ v _ v' hv => ?_
          exact .pure ⟨by rw [hy.alike.text], .inl hv.2⟩
      · -- After a name between parentheses comes no dot.
        refine (consume_dot_matches hdot (by decide)).bind fun _ _ _ _ hb => ?_
        obtain ⟨rfl, rfl, rfl, rfl⟩ := hb
        exact expect_dot_bind_matches hdot (by decide)

theorem paramNames_matches (hg : g.failure = none) (h : gap.At n n' p s s') :
    Matches g.paramNames g.paramNames s s' (Named gap n n' p) := by
  refine (next?_matches hg (h.mono n.le_succ n'.le_succ)).bind fun o t o' t' ho => ?_
  obtain ⟨rfl, rfl, -⟩ | ⟨y, y', rfl, rfl, rfl, rfl, hy⟩ := ho
  · exact .throw
  refine .ite (by rw [hy.alike.kind]) (fun _ => ?_) fun hkind => ?_
  · obtain ht | ⟨-, -, -, hdot⟩ := hy.cases
    · exact .pure ⟨by rw [hy.alike.text], .inl ht⟩
    · exact .pure ⟨by rw [hy.alike.text], .inr hdot⟩
  · have ht := hy.at_of_kind hkind
    refine .ite (by rw [hy.alike.kind]) (fun _ => ?_) fun _ => .throw
    refine Parser.Matches.get.bind fun _ _ _ _ hget => ?_
    obtain ⟨rfl, rfl, rfl, rfl⟩ := hget
    refine (names_matches hg (Nat.lt_succ_self _) (Nat.lt_succ_self _) ht.self).mono
      fun _ _ _ _ hnames => ?_
    exact ⟨hnames.1, hnames.2.imp_left fun hu => hu.mono ht.length ht.length'⟩

theorem run_lambda_eq_ok {model : String} {e : Expr} {t : List Token}
    (h : (g.lambda model).run s = .ok (e, t)) :
    g.failure = none ∧ ∃ names u body, g.paramNames.run s = .ok (names, u) ∧
      e = .lambda (names.map fun name => ⟨name, model⟩) body := by
  rw [lambda] at h
  obtain ⟨names, u, hnames, h⟩ := Parser.run_bind_eq_ok.1 h
  obtain ⟨_, v, -, h⟩ := Parser.run_bind_eq_ok.1 h
  obtain ⟨body, w, -, h⟩ := Parser.run_bind_eq_ok.1 h
  obtain ⟨o, x, ho, h⟩ := Parser.run_bind_eq_ok.1 h
  cases o with
  | some => cases h
  | none =>
    cases h
    refine ⟨?_, names, u, body, hnames, rfl⟩
    rw [next?] at ho
    cases w with
    | cons => cases ho
    | nil =>
      cases hfailure : g.failure with
      | none => rfl
      | some e =>
        dsimp only at ho
        rw [hfailure] at ho
        cases ho

/-- The lambda of the first list is the lambda of the second one without `Value`. -/
theorem lambda_matches {model : String} {params : List Param} {body : Expr} {t : List Token}
    (h : gap.At n n' false s s') (hrun : (g.lambda model).run s = .ok (.lambda params body, t))
    (hparam : ∃ param ∈ params, param.name = gap.param.text) :
    (g.lambda model).run s' = .error .tooDeep ∨
      ∃ e' t', (g.lambda model).run s' = .ok (e', t') ∧
        Expr.Inserts g.catalog (.lambda params body) e' := by
  obtain ⟨hg, names, u, body', hnames, heq⟩ := run_lambda_eq_ok hrun
  obtain ⟨rfl, rfl⟩ := Expr.lambda.inj heq
  have hfind : ((names.map fun name => (⟨name, model⟩ : Param)).find?
      (·.name == gap.param.text)).isSome := by
    obtain ⟨param, hmem, hname⟩ := hparam
    exact List.find?_isSome.2 ⟨param, hmem, by simp [hname]⟩
  rw [lambda] at hrun ⊢
  rw [Parser.run_bind_of_eq hnames] at hrun
  obtain hdeep | ⟨names', u', hnames', rfl, hu⟩ := paramNames_matches hg h names u hnames
  · rw [StateT.run_bind, hdeep]
    exact .inl rfl
  rw [Parser.run_bind_of_eq hnames']
  suffices hmatches : Matches _ _ u u' fun e _ e' _ => Expr.Inserts g.catalog e e' from
    hmatches _ t hrun
  obtain hu | ⟨dot, v, v', hdot, rfl, rfl⟩ := hu
  · refine (expect_matches hg (by decide) hu).bind fun _ v _ v' hv => ?_
    let inner : Grammar := { g with params := names.map fun name => ⟨name, model⟩ }
    have hbody := expression_matches (g := inner) hg hfind maxDepth 0 (Nat.zero_le _) n n' false v
      v' hv.2
    refine hbody.bind fun e w e' w' he => ?_
    obtain ⟨q, hw, he⟩ := he
    refine (next?_matches (g := inner) hg (hw.mono n.le_succ n'.le_succ)).bind
      fun o x o' x' ho => ?_
    obtain ⟨rfl, rfl, rfl, rfl, -⟩ | ⟨_, _, rfl, -⟩ := ho
    · obtain rfl := hw.passed_of_nil rfl
      cases he with
      | inserted he => exact .pure (he.frame_self (.bodyOf _))
    · exact .throw
  · exact expect_dot_bind_matches hdot (by decide)

end Grammar

end PredicateSql
