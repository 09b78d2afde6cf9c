import PredicateSql.Proofs.Lambda.Depth
import PredicateSql.Proofs.Lambda.Literals
import PredicateSql.Proofs.Lambda.Precedence
import PredicateSql.Proofs.Lambda.Spelling

/-!
# Reading printed trees

The tokens of a printed tree are read as a tree with the same skeleton, if expressions do not nest
too deep in them.

* `Grammar.Settles`: a run ends as it should, or the depth is not enough. `Settles.bind` and
  `Settles.map` put steps together.
* `Grammar.Rereads`: a call for an expression gets past the tokens of a printed tree, and on with
  the loop over operators, or its depth is not enough. `Rereads.turn`: one turn further.
* `Grammar.run_list_of_parts`, `Grammar.run_new_of_parts`: what is read of items, and after `new`.
* `Grammar.rereads_of_spells`: what a call does with the tokens of a printed tree.
-/

namespace PredicateSql

namespace Grammar

variable {g : Grammar} {depth power count : Nat} {e : Expr} {ts us s : List Token} {t : Token}

/-! ### Outcomes -/

/-- A run over the tokens before `s` ends with something that is as it should be, if the depth is
enough for the expressions in them; else it fails for that. -/
def Settles {α : Type} (fits : Prop) (P : α → Prop) (s : List Token)
    (run : Except ParseError (α × List Token)) : Prop :=
  ¬ fits ∧ run = .error .tooDeep ∨ fits ∧ ∃ a, P a ∧ run = .ok (a, s)

namespace Settles

variable {α β : Type} {fits fits' : Prop} {P : α → Prop} {Q : β → Prop}

theorem congr {run : Except ParseError (α × List Token)} (h : Settles fits P s run)
    (hfits : fits ↔ fits') : Settles fits' P s run := by
  rwa [← propext hfits]

/-- The depth has to be enough for both steps. -/
theorem bind {m : Parser α} {f : α → Parser β} {fits'' : Prop}
    (hm : Settles fits P us (m.run ts)) (hfits : fits'' ↔ fits ∧ fits')
    (hf : ∀ a, P a → Settles fits' Q s ((f a).run us)) : Settles fits'' Q s ((m >>= f).run ts) := by
  obtain ⟨hdeep, herror⟩ | ⟨hfirst, a, ha, hok⟩ := hm
  · rw [StateT.run_bind, herror]
    exact .inl ⟨fun h => hdeep (hfits.1 h).1, rfl⟩
  · rw [Parser.run_bind_of_eq hok]
    obtain ⟨hdeep, herror⟩ | ⟨hsecond, b, hb, hok⟩ := hf a ha
    · exact .inl ⟨fun h => hdeep (hfits.1 h).2, herror⟩
    · exact .inr ⟨hfits.2 ⟨hfirst, hsecond⟩, b, hb, hok⟩

/-- A second step that does not nest. -/
theorem map {m : Parser α} {f : α → Parser β} (hm : Settles fits P us (m.run ts))
    (hf : ∀ a, P a → ∃ b, Q b ∧ (f a).run us = .ok (b, s)) :
    Settles fits Q s ((m >>= f).run ts) :=
  hm.bind (and_iff_left trivial).symm fun a ha => .inr ⟨trivial, hf a ha⟩

/-- A first step that does not nest. -/
theorem of_ok {m : Parser α} {f : α → Parser β} {a : α} (hm : m.run ts = .ok (a, us))
    (hf : Settles fits Q s ((f a).run us)) : Settles fits Q s ((m >>= f).run ts) := by
  rwa [Parser.run_bind_of_eq hm]

end Settles

/-- A tree with the same skeleton, and no higher. -/
structure Copies (e r : Expr) : Prop where
  skeleton : r.skeleton = e.skeleton
  height : r.height ≤ e.height

/-- Trees with the same skeletons, none of which makes the highest one higher. -/
structure CopiesAll (es rs : List Expr) : Prop where
  skeletons : Expr.skeletons rs = Expr.skeletons es
  height : Expr.heightOfAll rs ≤ Expr.heightOfAll es

/-- What a call for an expression does on the tokens of a printed tree, before the tokens `s`. It
gets on with the loop over operators, or its depth is less than `needed`. -/
inductive Rereads (g : Grammar) (depth power needed : Nat) (e : Expr) (s : List Token) :
    Except ParseError (Expr × List Token) → Prop
  | tooDeep (h : depth < needed) : Rereads g depth power needed e s (.error .tooDeep)
  | operators {depth' count : Nat} {r : Expr} (hdepth : depth = depth' + 1) (hfits : needed ≤ depth)
    (hr : Copies e r) (hcount : s.length < count) : Rereads g depth power needed e s
      ((g.operators (g.expression depth') power count r r.height).run s)

variable {needed needed' : Nat} {run : Except ParseError (Expr × List Token)} {left : Expr}

/-- Before what binds less tightly, the call ends with the tree. -/
theorem Rereads.settles (h : g.Rereads depth power needed e s run) (hg : g.failure = none)
    (hs : Stops power s) : Settles (needed ≤ depth) (Copies e) s run := by
  cases h with
  | tooDeep h => exact .inl ⟨Nat.not_le.2 h, rfl⟩
  | operators _ hfits hr => exact .inr ⟨hfits, _, hr, run_operators_of_stops hg hs⟩

/-- A cast leaves no trace. -/
theorem Rereads.convert (h : g.Rereads depth power needed e s run) :
    g.Rereads depth power needed (.unary .convert e) s run := by
  cases h with
  | tooDeep h => exact .tooDeep h
  | operators hdepth hfits hr hcount =>
    exact .operators hdepth hfits ⟨hr.skeleton, Nat.le_trans hr.height (Nat.le_add_left _ 1)⟩ hcount

/-- A call starts with an operand. -/
theorem rereads_of_operand (hmax : e.height ≤ maxDepth)
    (h : Settles (needed ≤ depth + 1) (Copies e) s ((g.operand (g.expression depth)).run us)) :
    g.Rereads (depth + 1) power needed e s ((g.expression (depth + 1) power).run us) := by
  rw [expression_succ]
  obtain ⟨hdeep, herror⟩ | ⟨hfits, r, hr, hok⟩ := h
  · rw [inner, StateT.run_bind, herror]
    exact .tooDeep (Nat.not_le.1 hdeep)
  · rw [run_inner_of_operand hok, if_pos (Nat.le_trans hr.height hmax)]
    exact .operators rfl hfits hr (Nat.lt_succ_self _)

/-- A call goes on with a turn of the loop. -/
theorem Rereads.turn (h : g.Rereads depth power needed' left us run) (hmax : e.height ≤ maxDepth)
    (hneeded : needed' ≤ needed) (hlength : s.length < us.length)
    (hturn : ∀ depth' r, depth = depth' + 1 → needed' ≤ depth → Copies left r →
      Settles (needed ≤ depth) (fun o => ∃ tree, o = some (tree, tree.height) ∧ Copies e tree) s
        ((g.turn (g.expression depth') power r r.height).run us)) :
    g.Rereads depth power needed e s run := by
  cases h with
  | tooDeep h => exact .tooDeep (Nat.lt_of_lt_of_le h hneeded)
  | @operators depth' count r hsucc hfits hr hcount =>
    have hsettles := hturn depth' r hsucc hfits hr
    obtain rfl := hsucc
    obtain _ | count := count
    · exact absurd hcount (Nat.not_lt_zero _)
    rw [operators_succ]
    obtain ⟨hdeep, herror⟩ | ⟨hfits, _, ⟨tree, rfl, htree⟩, hok⟩ := hsettles
    · rw [StateT.run_bind, herror]
      exact .tooDeep (Nat.not_le.1 hdeep)
    · rw [Parser.run_bind_of_eq hok]
      show g.Rereads (depth' + 1) power needed e s ((do
        checkLevels tree.height
        g.operators (g.expression depth') power count tree tree.height : Parser Expr).run s)
      rw [run_checkLevels, if_pos (Nat.le_trans htree.height hmax)]
      exact .operators rfl hfits htree (by omega)

/-! ### Single tokens -/

theorem run_expect_of_eq {kind : TokenKind} {what : String} (h : t.kind = kind) :
    (g.expect kind what).run (t :: s) = .ok (t, s) := by
  rw [expect, Parser.run_bind_of_eq run_next_cons, if_pos h]
  rfl

theorem run_comesNext_of_eq {kind : TokenKind} (h : t.kind = kind) :
    (g.comesNext kind).run (t :: s) = .ok (true, t :: s) := by
  show Except.ok (t.kind == kind, t :: s) = _
  rw [beq_iff_eq.2 h]

/-- A closing token or a separator stops any expression. -/
theorem stops_of_kind {kind : TokenKind} (ht : t.kind = kind) (hpost : postfixPower? kind = none)
    (hmiddle : infixPowers? kind = none) : Stops power (t :: s) := by
  rintro _ ⟨⟩
  rw [ht, hpost, hmiddle]
  exact ⟨rfl, nofun⟩

/-! ### Lists -/

/-- A nested expression is read from the tokens of each part, whatever ends it. -/
def ReadsParts (g : Grammar) (depth : Nat) (parts : List (List Token × Expr)) : Prop :=
  ∀ part ∈ parts, ∀ t s, t.kind ≠ .parenLeft → postfixPower? t.kind = none →
    g.Rereads depth 0 part.2.printedDepth part.2 (t :: s)
      ((g.expression depth 0).run (part.1 ++ t :: s))

/-- A token that ends a list. -/
structure Closes (kind : TokenKind) : Prop where
  ne_parenLeft : kind ≠ .parenLeft
  ne_comma : kind ≠ .comma
  postfixPower? : postfixPower? kind = none
  infixPowers? : infixPowers? kind = none

theorem closes_parenRight : Closes .parenRight :=
  ⟨nofun, nofun, rfl, rfl⟩

theorem closes_braceRight : Closes .braceRight :=
  ⟨nofun, nofun, rfl, rfl⟩

variable {opening closing : TokenKind} {parts : List (List Token × Expr)}

theorem run_items_of_parts (hg : g.failure = none) (hclosing : Closes closing) {c : Token}
    (hc : c.kind = closing) (hparts : ReadsParts g depth parts)
    (h : IsSeparated (parts.map (·.1)) us) (hcount : us.length < count) :
    Settles (Expr.printedDepthOfAll (parts.map (·.2)) ≤ depth) (CopiesAll (parts.map (·.2))) s
      ((g.items (g.expression depth) closing count).run (us ++ c :: s)) := by
  induction parts generalizing us count with
  | nil => cases h
  | cons part rest ih =>
    obtain _ | count := count
    · exact absurd hcount (Nat.not_lt_zero _)
    have hpart := hparts part List.mem_cons_self
    have hrest : ReadsParts g depth rest := fun p hp => hparts p (List.mem_cons_of_mem _ hp)
    have hfits : Expr.printedDepthOfAll ((part :: rest).map (·.2)) ≤ depth ↔
        part.2.printedDepth ≤ depth ∧ Expr.printedDepthOfAll (rest.map (·.2)) ≤ depth :=
      Nat.max_le
    rw [items]
    generalize hlist : (part :: rest).map (·.1) = list at h
    cases h with
    | single =>
      obtain ⟨rfl, hnil⟩ := List.cons.inj hlist
      obtain rfl := List.map_eq_nil_iff.1 hnil
      have hitem := (hpart c s (hc ▸ hclosing.ne_parenLeft) (hc ▸ hclosing.postfixPower?)).settles
        hg (stops_of_kind hc hclosing.postfixPower? hclosing.infixPowers?)
      refine hitem.bind hfits fun r hr => Settles.of_ok (run_consume_of_eq hc) ?_
      refine .inr ⟨Nat.zero_le _, [r], ⟨?_, ?_⟩, rfl⟩
      · simp [Expr.skeletons, hr.skeleton]
      · simpa [Expr.heightOfAll] using hr.height
    | @cons ts us parts comma hcomma h =>
      obtain ⟨rfl, rfl⟩ := List.cons.inj hlist
      have hparen : comma.kind ≠ .parenLeft := by simp [hcomma]
      have hitem := (hpart comma (us ++ c :: s) hparen (by rw [hcomma]; rfl)).settles hg
        (stops_of_kind hcomma rfl rfl)
      have hne : comma.kind ≠ closing := fun heq => hclosing.ne_comma (heq.symm.trans hcomma)
      simp only [List.length_append, List.length_cons] at hcount
      rw [List.append_assoc, List.cons_append]
      refine hitem.bind hfits fun r hr => Settles.of_ok (run_consume_of_ne hne) ?_
      rw [if_neg Bool.false_ne_true]
      refine Settles.of_ok run_next_cons ?_
      dsimp only
      rw [if_neg (not_not.2 hcomma)]
      refine (ih hrest h (by omega)).map fun rs hrs => ⟨r :: rs, ⟨?_, ?_⟩, rfl⟩
      · simp [Expr.skeletons, hr.skeleton, hrs.skeletons]
      · have hheight := hr.height
        have hheights := hrs.height
        simp only [List.map_cons, Expr.heightOfAll]
        omega

/-- Items are read between two tokens. None of them may start with the closing one. -/
theorem run_list_of_parts (hg : g.failure = none) (hclosing : Closes closing)
    (hheads : ∀ part ∈ parts, ∃ t rest, part.1 = t :: rest ∧ t.kind ≠ closing)
    (hparts : ReadsParts g depth parts) (h : IsEnclosed opening closing (parts.map (·.1)) us) :
    Settles (Expr.printedDepthOfAll (parts.map (·.2)) ≤ depth) (CopiesAll (parts.map (·.2))) s
      ((g.list (g.expression depth) opening closing).run (us ++ s)) := by
  rw [list]
  generalize hlist : parts.map (·.1) = list at h
  cases h with
  | @nil o c ho hc =>
    obtain rfl := List.map_eq_nil_iff.1 hlist
    refine Settles.of_ok run_next_cons ?_
    dsimp only
    rw [if_neg (not_not.2 ho)]
    refine Settles.of_ok (run_consume_of_eq hc) ?_
    exact .inr ⟨Nat.zero_le _, [], ⟨rfl, Nat.le_refl _⟩, rfl⟩
  | @items o c _ us ho hc h =>
    subst hlist
    rw [List.cons_append, List.append_assoc, List.singleton_append]
    refine Settles.of_ok run_next_cons ?_
    dsimp only
    rw [if_neg (not_not.2 ho)]
    have hfirst : ∃ t rest, us = t :: rest ∧ t.kind ≠ closing := by
      obtain ⟨first, rest, more, hfirst, rfl⟩ := h.exists_append
      obtain ⟨part, _, rfl, rfl, -⟩ := List.map_eq_cons_iff.1 hfirst
      obtain ⟨t, tail, hpart, hne⟩ := hheads part List.mem_cons_self
      exact ⟨t, tail ++ more, by rw [hpart, List.cons_append], hne⟩
    obtain ⟨t, rest, rfl, hne⟩ := hfirst
    refine Settles.of_ok (run_consume_of_ne hne) ?_
    rw [if_neg Bool.false_ne_true]
    refine Settles.of_ok (a := t :: (rest ++ c :: s)) rfl ?_
    refine run_items_of_parts hg hclosing hc hparts h ?_
    simp only [List.length_cons, List.length_append]
    omega

/-! ### Types after `new` -/

theorem run_typeName {name : Token} {type : String} (h : NamesNew (name :: ts) type)
    (ht : t.kind = .parenLeft) :
    (g.typeName name).run (ts ++ t :: s) = .ok (type, t :: s) := by
  rw [typeName]
  generalize hlist : name :: ts = list at h
  cases h with
  | @word u type h =>
    obtain ⟨rfl, rfl⟩ := List.cons.inj hlist
    rw [List.nil_append, Parser.run_bind_of_eq (run_consume_of_ne (by simp [ht]))]
    rw [if_neg Bool.false_ne_true, Parser.run_bind_of_eq (run_consume_of_ne (by simp [ht]))]
    rw [if_neg Bool.false_ne_true, h.text]
    rfl
  | @generic u v less greater type arg h hless harg hgreater =>
    obtain ⟨rfl, rfl⟩ := List.cons.inj hlist
    simp only [List.cons_append, List.nil_append]
    rw [Parser.run_bind_of_eq (run_consume_of_eq hless)]
    rw [if_pos rfl, Parser.run_bind_of_eq (run_expect_of_eq harg.kind),
      Parser.run_bind_of_eq (run_expect_of_eq hgreater), h.text, harg.text]
    rfl
  | @array u opening closing type h hopening hclosing =>
    obtain ⟨rfl, rfl⟩ := List.cons.inj hlist
    simp only [List.cons_append, List.nil_append]
    rw [Parser.run_bind_of_eq (run_consume_of_ne (by simp [hopening]))]
    rw [if_neg Bool.false_ne_true, Parser.run_bind_of_eq (run_consume_of_eq hopening)]
    rw [if_pos rfl, Parser.run_bind_of_eq (run_expect_of_eq hclosing), h.text]
    rfl

/-- After `new`, a type name and its arguments are read. -/
theorem run_new_of_parts (hg : g.failure = none) {type : String} (htype : NamesNew ts type)
    (hheads : ∀ part ∈ parts, ∃ t rest, part.1 = t :: rest ∧ t.kind ≠ .parenRight)
    (hparts : ReadsParts g depth parts)
    (h : IsEnclosed .parenLeft .parenRight (parts.map (·.1)) us) :
    Settles ((Expr.new type (parts.map (·.2))).printedDepth ≤ depth + 1)
      (Copies (.new type (parts.map (·.2)))) s
      ((g.new (g.expression depth)).run (ts ++ us ++ s)) := by
  obtain ⟨name, more, rfl, hname⟩ : ∃ t more, ts = t :: more ∧ t.kind = .identifier := by
    cases htype with
    | word h | generic h | array h => exact ⟨_, _, rfl, h.kind⟩
  obtain ⟨o, rest, rfl, ho⟩ := h.exists_head
  have hlist := run_list_of_parts (s := s) hg closes_parenRight hheads hparts h
  rw [List.append_assoc, List.cons_append]
  refine Settles.of_ok (run_consume_of_ne (by simp [hname])) ?_
  rw [if_neg Bool.false_ne_true]
  refine Settles.of_ok (run_expect_of_eq hname) ?_
  refine Settles.of_ok (run_typeName htype ho) ?_
  refine Settles.of_ok (run_comesNext_of_eq ho) ?_
  rw [if_pos rfl]
  rw [Expr.printedDepth]
  refine Settles.congr (hlist.map fun rs hrs => ⟨.new type rs, ⟨?_, ?_⟩, rfl⟩) (by omega)
  · rw [Expr.skeleton, Expr.skeleton, hrs.skeletons]
  · exact Nat.add_le_add_left hrs.height 1

/-- After `new`, brackets and the items of an array are read. -/
theorem run_new_of_items (hg : g.failure = none) {elementType : ValueType} {o c : Token}
    (ho : o.kind = .bracketLeft) (hc : c.kind = .bracketRight)
    (hheads : ∀ part ∈ parts, ∃ t rest, part.1 = t :: rest ∧ t.kind ≠ .braceRight)
    (hparts : ReadsParts g depth parts)
    (h : IsEnclosed .braceLeft .braceRight (parts.map (·.1)) us) :
    Settles ((Expr.array elementType (parts.map (·.2))).printedDepth ≤ depth + 1)
      (Copies (.array elementType (parts.map (·.2)))) s
      ((g.new (g.expression depth)).run (o :: c :: (us ++ s))) := by
  have hlist := run_list_of_parts (s := s) hg closes_braceRight hheads hparts h
  refine Settles.of_ok (run_consume_of_eq ho) ?_
  rw [if_pos rfl]
  refine Settles.of_ok (run_expect_of_eq hc) ?_
  rw [Expr.printedDepth]
  refine Settles.congr (hlist.map fun rs hrs => ⟨.array _ rs, ⟨?_, ?_⟩, rfl⟩) (by omega)
  · rw [Expr.skeleton, Expr.skeleton, hrs.skeletons]
  · exact Nat.add_le_add_left hrs.height 1

/-! ### Operands -/

/-- A literal is read as a constant. -/
theorem run_operand_of_isLiteral {value : Value} (h : IsLiteral t value) :
    ∃ type, (g.operand (g.expression depth)).run (t :: s) = .ok (.constant type value, s) := by
  cases h with
  | null h | true h | false h =>
    rw [operand, Parser.run_bind_of_eq run_next_cons, h]
    exact ⟨_, rfl⟩
  | string h hread => exact ⟨_, run_operand_string h hread⟩
  | number h hread =>
    rw [operand, Parser.run_bind_of_eq run_next_cons, h]
    dsimp only
    rw [number, hread]
    exact ⟨_, rfl⟩

theorem run_operand_of_names {name : String} (h : Names t name) :
    (g.operand (g.expression depth)).run (t :: s) =
      (g.identifier (g.expression depth) t).run s := by
  rw [operand, Parser.run_bind_of_eq run_next_cons, h.kind]

/-- A name that no parameter has is that of a type. -/
theorem run_identifier_static {type name : String} {dot u : Token} (h : Names t type)
    (hdot : dot.kind = .dot) (hname : Names u name) (htype : isTypeName type = true)
    (hfind : g.params.find? (·.name == type) = none) :
    (g.identifier (g.expression depth) t).run (dot :: u :: s) = (do
      if ← g.comesNext .parenLeft then
        let args ← g.list (g.expression depth) .parenLeft .parenRight
        return .staticCall ⟨.ofName type, name⟩ args
      else return .staticMember type name : Parser Expr).run s := by
  rw [identifier, h.text]
  dsimp only
  rw [hfind, htype]
  dsimp only
  rw [if_neg (by decide), Parser.run_bind_of_eq (run_consume_of_eq hdot),
    if_neg (by decide), Parser.run_bind_of_eq (run_expect_of_eq hname.kind), hname.text]

/-! ### Suffixes and operators -/

variable {owner right : Expr} {levels : Nat} {sub : Nat → Parser Expr} {dot u o c : Token}

theorem run_turn_of_postfixPower? {p : Nat} (hpost : postfixPower? t.kind = some p)
    (hpower : power ≤ p) :
    (g.turn sub power left levels).run (t :: s) = (do
      let tree ← g.suffix sub left
      return some (tree, max levels (suffixHeight tree) + 1) : Parser _).run (t :: s) := by
  rw [turn, Parser.run_bind_of_eq run_peek?_cons]
  dsimp only
  rw [hpost]
  dsimp only
  rw [if_neg (Nat.not_lt.2 hpower)]

theorem run_turn_of_question (hquestion : t.kind = .question) :
    (g.turn sub 0 left levels).run (t :: s) = (do
      let ifTrue ← sub 0
      let _ ← g.expect .colon "':'"
      let ifFalse ← sub 4
      return some (.conditional left ifTrue ifFalse,
        max levels (max ifTrue.height ifFalse.height) + 1) : Parser _).run s := by
  rw [turn, Parser.run_bind_of_eq run_peek?_cons]
  dsimp only
  rw [hquestion]
  show (if 5 < 0 then _ else _ : Parser (Option (Expr × Nat))).run (t :: s) = _
  rw [if_neg (Nat.not_lt_zero 5), Parser.run_bind_of_eq run_next_cons, between, if_pos hquestion]
  simp only [bind_assoc, pure_bind]

/-- The call goes on with a suffix. -/
theorem Rereads.suffix (h : g.Rereads depth power owner.printedDepth owner (t :: us) run)
    (hpost : postfixPower? t.kind = some 80) (hpower : power ≤ prefixPower)
    (hmax : e.height ≤ maxDepth) (hneeded : owner.printedDepth ≤ e.printedDepth)
    (hlength : s.length < us.length)
    (hsuffix : ∀ depth' r, depth = depth' + 1 → owner.printedDepth ≤ depth → Copies owner r →
      Settles (e.printedDepth ≤ depth)
        (fun tree => Copies e tree ∧ max r.height (suffixHeight tree) + 1 = tree.height) s
        ((g.suffix (g.expression depth') r).run (t :: us))) :
    g.Rereads depth power e.printedDepth e s run := by
  refine h.turn hmax hneeded (Nat.lt_succ_of_lt hlength) fun depth' r hdepth hfits hr => ?_
  rw [run_turn_of_postfixPower? hpost (Nat.le_trans hpower (by decide))]
  refine (hsuffix depth' r hdepth hfits hr).map fun tree htree => ⟨_, ⟨tree, rfl, htree.1⟩, ?_⟩
  rw [← htree.2]
  rfl

theorem Rereads.member {type name : String}
    (h : g.Rereads depth power owner.printedDepth owner (dot :: u :: s) run) (hg : g.failure = none)
    (hpower : power ≤ prefixPower) (hdot : dot.kind = .dot) (hname : Names u name)
    (hs : ∀ t ∈ s.head?, t.kind ≠ .parenLeft)
    (hmax : (Expr.member owner type name).height ≤ maxDepth) :
    g.Rereads depth power owner.printedDepth (.member owner type name) s run := by
  have hlength : s.length < (u :: s).length := Nat.lt_succ_self _
  refine h.suffix (e := .member owner type name) (by rw [hdot]; rfl) hpower hmax (Nat.le_refl _)
    hlength fun depth' r _ hfits hr => ?_
  refine .inr ⟨hfits, _, ⟨⟨?_, ?_⟩, ?_⟩, run_suffix_member hg hdot hname.kind hs⟩
  · rw [Expr.skeleton, Expr.skeleton, hr.skeleton, hname.text]
  · exact Nat.add_le_add_left hr.height 1
  · show max r.height 0 + 1 = 1 + r.height
    rw [Nat.max_zero, Nat.add_comm]

theorem Rereads.index {index : Expr}
    (h : g.Rereads depth power owner.printedDepth owner (o :: (us ++ c :: s)) run)
    (hg : g.failure = none) (hpower : power ≤ prefixPower) (ho : o.kind = .bracketLeft)
    (hc : c.kind = .bracketRight) (hmax : (Expr.binary .index owner index).height ≤ maxDepth)
    (hindex : ∀ depth, g.Rereads depth 0 index.printedDepth index (c :: s)
      ((g.expression depth 0).run (us ++ c :: s))) :
    g.Rereads depth power (Expr.binary .index owner index).printedDepth
      (.binary .index owner index) s run := by
  have hlength : s.length < (us ++ c :: s).length := by
    rw [List.length_append, List.length_cons]
    omega
  refine h.suffix (by rw [ho]; rfl) hpower hmax (Nat.le_max_left _ _) hlength
    fun depth' r hdepth hfits hr => ?_
  have hnested := (hindex depth').settles hg (stops_of_kind hc rfl rfl)
  have hiff : (Expr.binary .index owner index).printedDepth ≤ depth ↔
      index.printedDepth ≤ depth' := by
    rw [Expr.printedDepth]
    omega
  refine Settles.congr (Settles.of_ok run_next_cons ?_) hiff.symm
  dsimp only
  rw [if_pos ho]
  refine hnested.map fun i hi => ⟨.binary .index r i, ⟨⟨?_, ?_⟩, ?_⟩, ?_⟩
  · rw [Expr.skeleton, Expr.skeleton, hr.skeleton, hi.skeleton]
  · have hheight := hr.height
    have hheights := hi.height
    simp only [Expr.height]
    omega
  · rw [suffixHeight, Expr.height, Nat.add_comm]
  · rw [Parser.run_bind_of_eq (run_expect_of_eq hc)]
    rfl

theorem Rereads.call {method : Method}
    (h : g.Rereads depth power owner.printedDepth owner (dot :: u :: (us ++ s)) run)
    (hg : g.failure = none) (hpower : power ≤ prefixPower) (hdot : dot.kind = .dot)
    (hname : Names u method.name)
    (hheads : ∀ part ∈ parts, ∃ t rest, part.1 = t :: rest ∧ t.kind ≠ .parenRight)
    (hparts : ∀ depth, ReadsParts g depth parts)
    (hus : IsEnclosed .parenLeft .parenRight (parts.map (·.1)) us)
    (hmax : (Expr.call owner method (parts.map (·.2))).height ≤ maxDepth) :
    g.Rereads depth power (Expr.call owner method (parts.map (·.2))).printedDepth
      (.call owner method (parts.map (·.2))) s run := by
  have hlength : s.length < (u :: (us ++ s)).length := by
    rw [List.length_cons, List.length_append]
    omega
  refine h.suffix (by rw [hdot]; rfl) hpower hmax (Nat.le_max_left _ _) hlength
    fun depth' r hdepth hfits hr => ?_
  have hnested := run_list_of_parts (s := s) hg closes_parenRight hheads (hparts depth') hus
  have hiff : (Expr.call owner method (parts.map (·.2))).printedDepth ≤ depth ↔
      Expr.printedDepthOfAll (parts.map (·.2)) ≤ depth' := by
    rw [Expr.printedDepth]
    omega
  obtain ⟨o, rest, rfl, ho⟩ := hus.exists_head
  refine Settles.congr (Settles.of_ok run_next_cons ?_) hiff.symm
  dsimp only
  rw [if_neg (by rw [hdot]; decide)]
  refine Settles.of_ok (run_expect_of_eq hname.kind) ?_
  refine Settles.of_ok (run_comesNext_of_eq ho) ?_
  rw [if_pos rfl]
  refine hnested.map fun rs hrs => ⟨_, ⟨⟨?_, ?_⟩, ?_⟩, rfl⟩
  · rw [Expr.skeleton, Expr.skeleton, hr.skeleton, hrs.skeletons, hname.text]
  · have hheight := hr.height
    have hheights := hrs.height
    simp only [Expr.height]
    omega
  · rw [suffixHeight, Expr.height, Nat.add_comm]

/-- The call goes on with an operator and its right operand, which a parenthesis ends. -/
theorem Rereads.binary {op : BinaryOp}
    (h : g.Rereads depth 0 left.printedDepth left (t :: (us ++ c :: s)) run)
    (hg : g.failure = none) (hop : binaryOp? t.kind = some op) (hc : c.kind = .parenRight)
    (hmax : (Expr.binary op left right).height ≤ maxDepth)
    (hright : ∀ depth power, power ≤ prefixPower →
      g.Rereads depth power right.printedDepth right (c :: s)
        ((g.expression depth power).run (us ++ c :: s))) :
    g.Rereads depth 0 (max left.printedDepth (1 + right.printedDepth)) (.binary op left right)
      (c :: s) run := by
  have hbinds := binds_of_binaryOp? hop
  refine h.turn hmax (Nat.le_max_left _ _) ?_ fun depth' r hdepth hfits hr => ?_
  · simp only [List.length_cons, List.length_append]
    omega
  have hnested := (hright depth' _ (Nat.le_of_lt hbinds.lt_prefixPower)).settles hg
    (stops_of_kind hc rfl rfl)
  rw [run_turn_of_binaryOp? hop (Nat.zero_le _)]
  refine Settles.congr (hnested.map fun i hi => ?_) (by omega)
  refine ⟨_, ⟨.binary op r i, ?_, ?_, ?_⟩, rfl⟩
  · rw [Expr.height, Nat.add_comm]
  · rw [Expr.skeleton, Expr.skeleton, hr.skeleton, hi.skeleton]
  · have hheight := hr.height
    have hheights := hi.height
    simp only [Expr.height]
    omega

/-- The call goes on with the two branches of a conditional, the second of which a parenthesis
ends. -/
theorem Rereads.conditional {colon : Token} {vs : List Token} {test ifTrue ifFalse : Expr}
    (h : g.Rereads depth 0 test.printedDepth test (t :: (us ++ colon :: (vs ++ c :: s))) run)
    (hg : g.failure = none) (hquestion : t.kind = .question) (hcolon : colon.kind = .colon)
    (hc : c.kind = .parenRight) (hmax : (Expr.conditional test ifTrue ifFalse).height ≤ maxDepth)
    (htrue : ∀ depth s, g.Rereads depth 0 ifTrue.printedDepth ifTrue (colon :: s)
      ((g.expression depth 0).run (us ++ colon :: s)))
    (hfalse : ∀ depth, g.Rereads depth 4 ifFalse.printedDepth ifFalse (c :: s)
      ((g.expression depth 4).run (vs ++ c :: s))) :
    g.Rereads depth 0 (max test.printedDepth (1 + max ifTrue.printedDepth ifFalse.printedDepth))
      (.conditional test ifTrue ifFalse) (c :: s) run := by
  refine h.turn hmax (Nat.le_max_left _ _) ?_ fun depth' r hdepth hfits hr => ?_
  · simp only [List.length_cons, List.length_append]
    omega
  have hfirst := (htrue depth' (vs ++ c :: s)).settles hg (stops_of_kind hcolon rfl rfl)
  have hsecond := (hfalse depth').settles hg (stops_of_kind hc rfl rfl)
  have hiff : max test.printedDepth (1 + max ifTrue.printedDepth ifFalse.printedDepth) ≤ depth ↔
      ifTrue.printedDepth ≤ depth' ∧ ifFalse.printedDepth ≤ depth' := by
    omega
  rw [run_turn_of_question hquestion]
  refine hfirst.bind hiff fun a ha => Settles.of_ok (run_expect_of_eq hcolon) ?_
  refine hsecond.map fun b hb => ⟨_, ⟨.conditional r a b, ?_, ?_, ?_⟩, rfl⟩
  · rw [Expr.height, Nat.add_comm]
  · rw [Expr.skeleton, Expr.skeleton, hr.skeleton, ha.skeleton, hb.skeleton]
  · have hheight := hr.height
    have hheights := ha.height
    have hheights' := hb.height
    simp only [Expr.height]
    omega

/-! ### Expressions -/

/-- What stands within parentheses is read as an operand, if it begins no cast. -/
theorem settles_group (hg : g.failure = none) (ho : o.kind = .parenLeft) (hc : c.kind = .parenRight)
    (hcast : g.cast.run (us ++ c :: s) = .ok (false, us ++ c :: s))
    (h : g.Rereads depth 0 needed e (c :: s) ((g.expression depth 0).run (us ++ c :: s))) :
    Settles (1 + needed ≤ depth + 1) (Copies e) s
      ((g.operand (g.expression depth)).run (o :: (us ++ c :: s))) := by
  refine Settles.congr (Settles.of_ok run_next_cons ?_) (by omega : needed ≤ depth ↔ _)
  rw [ho]
  refine Settles.of_ok hcast ?_
  rw [if_neg Bool.false_ne_true]
  refine (h.settles hg (stops_of_kind hc rfl rfl)).map fun r hr => ⟨r, hr, ?_⟩
  rw [Parser.run_bind_of_eq (run_expect_of_eq hc)]
  rfl

/-- An operator before an operand takes in what follows the operand. -/
theorem settles_unary {op : UnaryOp} (hg : g.failure = none) (hop : op ≠ .convert)
    (hrun : (g.operand (g.expression depth)).run (t :: us) =
      (do return .unary op (← g.expression depth prefixPower) : Parser Expr).run us)
    (hs : ∀ t ∈ s.head?, postfixPower? t.kind = none)
    (h : g.Rereads depth prefixPower e.printedDepth e s ((g.expression depth prefixPower).run us)) :
    Settles ((Expr.unary op e).printedDepth ≤ depth + 1) (Copies (.unary op e)) s
      ((g.operand (g.expression depth)).run (t :: us)) := by
  have hstops : Stops prefixPower s := by
    refine fun t ht => ⟨hs t ht, fun powers hpowers => ?_⟩
    revert hpowers
    cases t.kind <;> rintro ⟨⟩ <;> decide
  have hdepth : (Expr.unary op e).printedDepth = 1 + e.printedDepth := by
    cases op with
    | convert => exact absurd rfl hop
    | not | negate => rfl
  have hskeleton : ∀ x : Expr, (Expr.unary op x).skeleton = .unary op x.skeleton := by
    cases op with
    | convert => exact absurd rfl hop
    | not | negate => exact fun _ => rfl
  rw [hrun]
  refine Settles.congr ((h.settles hg hstops).map fun r hr => ⟨_, ⟨?_, ?_⟩, rfl⟩) (by omega)
  · rw [hskeleton, hskeleton, hr.skeleton]
  · exact Nat.add_le_add_left hr.height 1

/-- The nested expressions of a list are read, if each of them is, whatever follows it. -/
theorem readsParts_of_forall (hmax : Expr.heightOfAll (parts.map (·.2)) ≤ maxDepth)
    (h : ∀ part ∈ parts, ∀ {depth power : Nat} {s : List Token}, part.2.height ≤ maxDepth →
      power ≤ prefixPower → (∀ t ∈ s.head?, t.kind ≠ .parenLeft) →
      (part.2.isSigned = true → ∀ t ∈ s.head?, postfixPower? t.kind = none) →
      g.Rereads depth power part.2.printedDepth part.2 s
        ((g.expression depth power).run (part.1 ++ s))) :
    ∀ depth, ReadsParts g depth parts := by
  intro depth part hpart t s hparen hpost
  refine h part hpart ?_ (Nat.zero_le _) (by simpa using hparen) fun _ => by simpa using hpost
  exact Expr.heightOfAll_le_iff.1 hmax _ (List.mem_map_of_mem hpart)

/-- A call reads the tokens of a printed tree, whatever follows them that does not belong to the
tree. -/
theorem rereads_of_spells (hg : g.failure = none) (h : Spells g.params ts e)
    (hmax : e.height ≤ maxDepth) (hpower : power ≤ prefixPower)
    (hs : ∀ t ∈ s.head?, t.kind ≠ .parenLeft)
    (hsigned : e.isSigned = true → ∀ t ∈ s.head?, postfixPower? t.kind = none) :
    g.Rereads depth power e.printedDepth e s ((g.expression depth power).run (ts ++ s)) := by
  -- The induction is over what the tree is spelled with. A suffix goes on with the call that read
  -- its owner; everything else is an operand, with nested calls of less depth.
  induction h generalizing depth power s with
  | convert h ih =>
    rw [Expr.height] at hmax
    exact (ih (by omega) hpower hs hsigned).convert
  | member h howner hdot hname ih =>
    have hheight := hmax
    rw [Expr.height] at hheight
    rw [List.append_assoc]
    refine (ih (by omega) hpower ?_ fun h => ?_).member hg hpower hdot hname hs hmax
    · simp [hdot]
    · simp [howner] at h
  | index h howner ho hindex hc ih ihindex =>
    have hheight := hmax
    rw [Expr.height] at hheight
    rw [List.append_assoc, List.cons_append, List.append_assoc]
    refine (ih (by omega) hpower ?_ fun h => ?_).index hg hpower ho hc hmax fun depth => ?_
    · simp [ho]
    · simp [howner] at h
    · exact ihindex (by omega) (Nat.zero_le _) (by simp [hc]) fun _ => by simp [hc, postfixPower?]
  | @call dot u ts us target method parts h htarget hdot hname hparts hus ih ihparts =>
    have hheight := hmax
    rw [Expr.height] at hheight
    have hreads := readsParts_of_forall (by omega) ihparts
    rw [List.append_assoc, List.cons_append, List.cons_append]
    refine (ih (by omega) hpower ?_ fun h => ?_).call hg hpower hdot hname ?_ hreads hus hmax
    · simp [hdot]
    · simp [htarget] at h
    · intro part hpart
      obtain ⟨t, rest, heq, hparen, -⟩ := (hparts part hpart).exists_head
      exact ⟨t, rest, heq, hparen⟩
  | @binary o t c op ts us left right ho hleft hop hright hc ihl ihr =>
    obtain _ | depth := depth
    · exact .tooDeep (Expr.printedDepth_pos _)
    have hheight := hmax
    rw [Expr.height] at hheight
    have hbinds := binds_of_binaryOp? hop
    have htokens : o :: (ts ++ t :: (us ++ [c])) ++ s = o :: ((ts ++ t :: us) ++ c :: s) := by simp
    have hinner : (ts ++ t :: us) ++ c :: s = ts ++ t :: (us ++ c :: s) := by simp
    have hnested : g.Rereads depth 0 left.printedDepth left (t :: (us ++ c :: s)) _ :=
      ihl (by omega) (Nat.zero_le _) (by simpa using hbinds.ne_parenLeft) fun _ => by
        simpa using hbinds.postfixPower?
    refine rereads_of_operand hmax ?_
    rw [htokens, Expr.printedDepth_binary hbinds.ne_index]
    refine settles_group hg ho hc ?_ ?_
    · rw [hinner]
      refine hleft.run_cast (opens_of_kind rfl ?_ hbinds.ne_question)
      intro heq
      rw [heq] at hop
      cases hop
    · rw [hinner]
      refine hnested.binary hg hop hc hmax fun depth power hpower => ?_
      exact ihr (by omega) hpower (by simp [hc]) fun _ => by simp [hc, postfixPower?]
  | @conditional o question colon c ts us vs test ifTrue ifFalse ho htest hquestion hifTrue hcolon
      hifFalse hc iht ihTrue ihFalse =>
    obtain _ | depth := depth
    · exact .tooDeep (Expr.printedDepth_pos _)
    have hheight := hmax
    rw [Expr.height] at hheight
    have htokens : o :: (ts ++ question :: (us ++ colon :: (vs ++ [c]))) ++ s =
        o :: ((ts ++ question :: (us ++ colon :: vs)) ++ c :: s) := by simp
    have hinner : (ts ++ question :: (us ++ colon :: vs)) ++ c :: s =
        ts ++ question :: (us ++ colon :: (vs ++ c :: s)) := by simp
    have hnested : g.Rereads depth 0 test.printedDepth test
        (question :: (us ++ colon :: (vs ++ c :: s))) _ :=
      iht (by omega) (Nat.zero_le _) (by simp [hquestion]) fun _ => by
        simp [hquestion, postfixPower?]
    refine rereads_of_operand hmax ?_
    rw [htokens, Expr.printedDepth]
    refine settles_group hg ho hc ?_ ?_
    · rw [hinner]
      refine htest.run_cast ⟨question, _, rfl, by simp [hquestion], fun _ => ?_⟩
      obtain ⟨t, rest, rfl, hparen, -⟩ := hifTrue.exists_head
      exact ⟨t, _, rfl, hparen⟩
    · rw [hinner]
      refine hnested.conditional hg hquestion hcolon hc hmax (fun depth s => ?_) fun depth => ?_
      · exact ihTrue (by omega) (Nat.zero_le _) (by simp [hcolon]) fun _ => by
          simp [hcolon, postfixPower?]
      · exact ihFalse (by omega) (by decide) (by simp [hc]) fun _ => by simp [hc, postfixPower?]
  | @not t ts e hkind h ih =>
    obtain _ | depth := depth
    · exact .tooDeep (Expr.printedDepth_pos _)
    have hheight := hmax
    rw [Expr.height] at hheight
    refine rereads_of_operand hmax (settles_unary hg (by decide) ?_ (hsigned rfl) ?_)
    · exact (Leading.not hkind).run_operand
    · exact ih (by omega) (Nat.le_refl _) hs fun _ => hsigned rfl
  | @negate t ts e hkind h ih =>
    obtain _ | depth := depth
    · exact .tooDeep (Expr.printedDepth_pos _)
    have hheight := hmax
    rw [Expr.height] at hheight
    refine rereads_of_operand hmax (settles_unary hg (by decide) ?_ (hsigned rfl) ?_)
    · exact (Leading.negate hkind).run_operand
    · exact ih (by omega) (Nat.le_refl _) hs fun _ => hsigned rfl
  | @new t type ts us parts hkind htype hparts hus ih =>
    obtain _ | depth := depth
    · exact .tooDeep (Expr.printedDepth_pos _)
    have hheight := hmax
    rw [Expr.height] at hheight
    have hnew := run_new_of_parts (s := s) hg htype (fun part hpart => ?_)
      (readsParts_of_forall (by omega) ih depth) hus
    · refine rereads_of_operand hmax (Settles.of_ok run_next_cons ?_)
      rw [hkind]
      exact hnew
    · obtain ⟨t, rest, heq, hparen, -⟩ := (hparts part hpart).exists_head
      exact ⟨t, rest, heq, hparen⟩
  | @array t o c elementType us parts hkind ho hc hparts hus ih =>
    obtain _ | depth := depth
    · exact .tooDeep (Expr.printedDepth_pos _)
    have hheight := hmax
    rw [Expr.height] at hheight
    have hnew : Settles ((Expr.array elementType (parts.map (·.2))).printedDepth ≤ depth + 1)
        _ s _ :=
      run_new_of_items hg ho hc (fun part hpart => ?_)
        (readsParts_of_forall (by omega) ih depth) hus
    · refine rereads_of_operand hmax (Settles.of_ok run_next_cons ?_)
      rw [hkind]
      exact hnew
    · obtain ⟨t, rest, heq, -, hbrace⟩ := (hparts part hpart).exists_head
      exact ⟨t, rest, heq, hbrace⟩
  | @constant t _ value h =>
    obtain _ | depth := depth
    · exact .tooDeep Nat.one_pos
    obtain ⟨type, hrun⟩ : ∃ type, (g.operand (g.expression depth)).run (t :: s) =
        .ok (.constant type value, s) := run_operand_of_isLiteral h
    refine rereads_of_operand hmax (.inr ⟨Nat.le_add_left _ _, .constant type _, ?_, hrun⟩)
    exact ⟨rfl, Nat.le_refl _⟩
  | @param t name model h hfind =>
    obtain _ | depth := depth
    · exact .tooDeep Nat.one_pos
    have hrun : (g.operand (g.expression depth)).run (t :: s) = .ok (.param name model, s) := by
      rw [run_operand_of_names h, identifier, h.text, hfind]
      rfl
    exact rereads_of_operand hmax (.inr ⟨Nat.le_add_left _ _, _, ⟨rfl, Nat.le_refl _⟩, hrun⟩)
  | staticMember h hdot hname htype hfind =>
    obtain _ | depth := depth
    · exact .tooDeep Nat.one_pos
    refine rereads_of_operand hmax ?_
    simp only [List.cons_append, List.nil_append]
    rw [run_operand_of_names h, run_identifier_static h hdot hname htype hfind]
    refine Settles.of_ok (run_comesNext hg hs) ?_
    exact .inr ⟨Nat.le_add_left _ _, _, ⟨rfl, Nat.le_refl _⟩, rfl⟩
  | @staticCall t dot u type name parts us h hdot hname htype hfind hrender hparts hus ih =>
    obtain _ | depth := depth
    · exact .tooDeep (Expr.printedDepth_pos _)
    have hheight := hmax
    rw [Expr.height] at hheight
    have hlist := run_list_of_parts (s := s) hg closes_parenRight ?_
      (readsParts_of_forall (by omega) ih depth) hus
    obtain ⟨o, rest, rfl, ho⟩ := hus.exists_head
    refine rereads_of_operand hmax ?_
    simp only [List.cons_append]
    rw [run_operand_of_names h, run_identifier_static h hdot hname htype hfind, hrender]
    refine Settles.of_ok (run_comesNext_of_eq ho) ?_
    rw [if_pos rfl, Expr.printedDepth]
    refine Settles.congr (hlist.map fun rs hrs => ⟨_, ⟨?_, ?_⟩, rfl⟩) (by omega)
    · rw [Expr.skeleton, Expr.skeleton, hrs.skeletons]
    · exact Nat.add_le_add_left hrs.height 1
    · intro part hpart
      obtain ⟨t, rest, heq, hparen, -⟩ := (hparts part hpart).exists_head
      exact ⟨t, rest, heq, hparen⟩

end Grammar

end PredicateSql
