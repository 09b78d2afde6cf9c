import PredicateSql.Proofs.Expr.Grouping
import PredicateSql.Proofs.Expr.Parts
import PredicateSql.Proofs.Lambda.Parsing
import PredicateSql.Proofs.Lambda.Turns

/-!
# Parsing by precedence

The powers that the parser compares do what precedence says.

* `Grammar.Leading`: the tokens of `!`, of a minus sign or of a cast before an operand.
  `Grammar.IsFactor`: the tokens of a number or of a chain of members, behind any of those.
* `Grammar.Outcome`: a call for an expression gets past the tokens of a tree, and on with the loop
  over operators, or the tree is too high. `Grammar.operators_members`, `Grammar.operators_binary`:
  the turns that take a chain of members, or an operator and what stands to its right.
* `Grammar.Reads`: a tree is written with factors, and with operators between them.
  `Grammar.expression_reads`: what a call does with a grouped tree, if its power is not above the
  operator at the root.
* `Grammar.parseLambda_factors`: a sequence of factors is parsed to the one tree that precedence
  allows, if that is not too high.
-/

namespace PredicateSql

namespace Expr

/-- A value with the members that are taken of it. -/
def withMembers (catalog : Catalog) : Expr → List Token → Expr
  | e, _ :: name :: rest => (member e (e.declaringName catalog) name.text).withMembers catalog rest
  | e, _ => e

theorem height_le_withMembers {catalog : Catalog} {e : Expr} (members : List Token) :
    e.height ≤ (e.withMembers catalog members).height := by
  fun_induction withMembers catalog e members with
  | case1 e dot name rest ih =>
    rw [height] at ih
    omega
  | case2 => exact Nat.le_refl _

theorem infixOp?_withMembers {catalog : Catalog} {e : Expr} (h : e.infixOp? = none)
    (members : List Token) : (e.withMembers catalog members).infixOp? = none := by
  fun_induction withMembers catalog e members with
  | case1 e dot name rest ih => exact ih rfl
  | case2 => exact h

end Expr

namespace Grammar

open PredicateSql.Expr (AreItems)
open PredicateSql.Text.Utf8 (encode)

variable {g : Grammar} {sub : Nat → Parser Expr} {depth power count levels : Nat}
  {left right e : Expr} {op : BinaryOp} {t : Token} {ts us s members : List Token}
  {kind : TokenKind}

/-! ### Powers -/

/-- What the powers of an operator are made of. The right one is between two precedences, so equal
operators group to the left. -/
structure Binds (kind : TokenKind) (op : BinaryOp) : Prop where
  postfixPower? : postfixPower? kind = none
  infixPowers? : infixPowers? kind = some (10 * op.precedence, 10 * op.precedence + 1)
  ne_question : kind ≠ .question
  ne_parenLeft : kind ≠ .parenLeft
  ne_index : op ≠ .index
  lt_prefixPower : 10 * op.precedence + 1 < prefixPower

theorem binds_of_binaryOp? (h : binaryOp? kind = some op) : Binds kind op := by
  cases kind <;> cases h <;> exact ⟨rfl, rfl, nofun, nofun, nofun, by decide⟩

/-- What follows a factor: nothing, or an operator with some property. -/
def Follows (p : BinaryOp → Prop) (s : List Token) : Prop :=
  ∀ t ∈ s.head?, ∃ op, binaryOp? t.kind = some op ∧ p op

theorem follows_cons {p : BinaryOp → Prop} (hop : binaryOp? t.kind = some op) (h : p op) :
    Follows p (t :: s) := by
  rintro _ ⟨⟩
  exact ⟨op, hop, h⟩

theorem Follows.mono {p q : BinaryOp → Prop} (h : Follows p s) (hpq : ∀ op, p op → q op) :
    Follows q s := by
  intro t ht
  obtain ⟨op, hop, hp⟩ := h t ht
  exact ⟨op, hop, hpq op hp⟩

theorem Follows.head_ne {p : BinaryOp → Prop} (h : Follows p s) :
    ∀ t ∈ s.head?, t.kind ≠ .parenLeft := by
  intro t ht
  obtain ⟨op, hop, -⟩ := h t ht
  exact (binds_of_binaryOp? hop).ne_parenLeft

/-! ### Turns -/

/-- No suffix follows, and no operator that binds at least as tightly as a power. -/
def Stops (power : Nat) (s : List Token) : Prop :=
  ∀ t ∈ s.head?, postfixPower? t.kind = none ∧ ∀ powers ∈ infixPowers? t.kind, powers.1 < power

theorem Follows.stops (hs : Follows (fun op => 10 * op.precedence < power) s) : Stops power s := by
  intro t ht
  obtain ⟨op, hop, hlt⟩ := hs t ht
  have hbinds := binds_of_binaryOp? hop
  refine ⟨hbinds.postfixPower?, fun powers hpowers => ?_⟩
  rw [hbinds.infixPowers?] at hpowers
  obtain rfl := Option.some.inj hpowers
  exact hlt

/-- No turn is taken before what binds less tightly. -/
theorem run_turn_of_stops (hg : g.failure = none) (hs : Stops power s) :
    (g.turn sub power left levels).run s = .ok (none, s) := by
  cases s with
  | nil =>
    rw [turn, Parser.run_bind_of_eq (run_peek?_nil hg)]
    rfl
  | cons t s =>
    obtain ⟨hpost, hmiddle⟩ := hs t rfl
    rw [turn, Parser.run_bind_of_eq run_peek?_cons]
    dsimp only
    rw [hpost]
    cases hpowers : infixPowers? t.kind with
    | none => rfl
    | some powers =>
      dsimp only
      rw [if_pos (hmiddle powers hpowers)]
      rfl

theorem run_operators_of_stops (hg : g.failure = none) (hs : Stops power s) :
    (g.operators sub power count left levels).run s = .ok (left, s) := by
  cases count with
  | zero => rfl
  | succ count =>
    rw [operators_succ, Parser.run_bind_of_eq (run_turn_of_stops hg hs)]
    rfl

/-- One turn of the loop takes an operator that binds tightly enough. -/
theorem run_turn_of_binaryOp? (hop : binaryOp? t.kind = some op)
    (hpower : power ≤ 10 * op.precedence) :
    (g.turn sub power left levels).run (t :: s) = (do
      let right ← sub (10 * op.precedence + 1)
      return some (.binary op left right, max levels right.height + 1) : Parser _).run s := by
  have hbinds := binds_of_binaryOp? hop
  rw [turn, Parser.run_bind_of_eq run_peek?_cons]
  dsimp only
  rw [hbinds.postfixPower?, hbinds.infixPowers?]
  dsimp only
  rw [if_neg (Nat.not_lt.2 hpower), Parser.run_bind_of_eq run_next_cons, between,
    if_neg hbinds.ne_question, hop, bind_assoc]
  simp only [pure_bind]

/-! ### Factors -/

/-- What follows the opening parenthesis of a cast: the name of a scalar type, perhaps a question
mark, and a closing parenthesis. -/
inductive IsCast : List Token → Prop
  | scalar {name closing : Token} (hname : name.kind = .identifier)
    (hscalar : isScalarName name.text) (hclosing : closing.kind = .parenRight) :
    IsCast [name, closing]
  | nullable {name question closing : Token} (hname : name.kind = .identifier)
    (hscalar : isScalarName name.text) (hquestion : question.kind = .question)
    (hclosing : closing.kind = .parenRight) : IsCast [name, question, closing]

/-- The tokens of an operator before its operand. -/
inductive Leading : UnaryOp → List Token → Prop
  | not {t : Token} (h : t.kind = .bang) : Leading .not [t]
  | negate {t : Token} (h : t.kind = .minus) : Leading .negate [t]
  | convert {opening : Token} {ts : List Token} (hopening : opening.kind = .parenLeft)
    (h : IsCast ts) : Leading .convert (opening :: ts)

/-- The tokens of a number, or of a chain of members of a parameter, perhaps with operators before
it, the first of which is the outermost one. -/
inductive IsFactor (g : Grammar) : List Token → Expr → Prop
  | number {t : Token} {e : Expr} (hkind : t.kind = .number)
    (hread : number? t.text.toList = some e) : IsFactor g [t] e
  | chain {t : Token} {p : Param} {members : List Token} (hkind : t.kind = .identifier)
    (hparam : g.params.find? (·.name == t.text) = some p) (hmembers : IsMembers members) :
    IsFactor g (t :: members) ((Expr.param p.name p.model).withMembers g.catalog members)
  | leading {op : UnaryOp} {ts us : List Token} {e : Expr} (h : Leading op ts)
    (he : IsFactor g us e) : IsFactor g (ts ++ us) (.unary op e)

theorem exists_constant_of_number? {text : List Char} (h : number? text = some e) :
    ∃ type value, e = .constant type value := by
  unfold number? at h
  simp only at h
  split at h
  · exact ⟨_, _, (Option.some.inj h).symm⟩
  · split at h
    · split at h
      · exact ⟨_, _, (Option.some.inj h).symm⟩
      · cases h
    · cases h

theorem IsFactor.infixOp?_eq_none (h : g.IsFactor ts e) : e.infixOp? = none := by
  cases h with
  | number hkind hread =>
    obtain ⟨type, value, rfl⟩ := exists_constant_of_number? hread
    rfl
  | chain => exact Expr.infixOp?_withMembers rfl _
  | leading => rfl

theorem run_cast (h : IsCast ts) : g.cast.run (ts ++ s) = .ok (true, s) := by
  have hget : ∀ s, (get : Parser (List Token)).run s = .ok (s, s) := fun _ => rfl
  cases h with
  | @scalar name closing hname hscalar hclosing =>
    have hquestion : closing.kind ≠ .question := by
      rw [hclosing]
      decide
    show g.cast.run (name :: closing :: s) = _
    rw [cast, Parser.run_bind_of_eq (hget _), Parser.run_bind_of_eq run_next?_cons]
    dsimp only
    rw [if_pos ⟨hname, hscalar⟩, Parser.run_bind_of_eq (run_consume_of_ne hquestion),
      Parser.run_bind_of_eq (run_consume_of_eq hclosing)]
    rfl
  | @nullable name question closing hname hscalar hquestion hclosing =>
    show g.cast.run (name :: question :: closing :: s) = _
    rw [cast, Parser.run_bind_of_eq (hget _), Parser.run_bind_of_eq run_next?_cons]
    dsimp only
    rw [if_pos ⟨hname, hscalar⟩, Parser.run_bind_of_eq (run_consume_of_eq hquestion),
      Parser.run_bind_of_eq (run_consume_of_eq hclosing)]
    rfl

/-- An operator before an operand comes to an operand of its own. -/
theorem Leading.run_operand {op : UnaryOp} (h : Leading op ts) :
    (g.operand sub).run (ts ++ s) = (do return .unary op (← sub prefixPower) : Parser Expr).run s := by
  cases h with
  | not h | negate h => rw [List.singleton_append, operand, Parser.run_bind_of_eq run_next_cons, h]
  | convert hopening h =>
    rw [List.cons_append, operand, Parser.run_bind_of_eq run_next_cons, hopening]
    dsimp only
    rw [Parser.run_bind_of_eq (run_cast h)]
    rfl

/-! ### Outcomes -/

/-- What a call for an expression does on the tokens of a tree, before the tokens `s`. Either it gets
on with the loop over operators, or the tree is too high for it. -/
inductive Outcome (g : Grammar) (depth power : Nat) (e : Expr) (s : List Token) :
    Except ParseError (Expr × List Token) → Prop
  | tooDeep (h : depth < e.height) : Outcome g depth power e s (.error .tooDeep)
  | operators {depth' count : Nat} (hdepth : depth = depth' + 1) (hheight : e.height ≤ maxDepth)
    (hcount : s.length < count) : Outcome g depth power e s
      ((g.operators (g.expression depth') power count e e.height).run s)

/-- Before an operator that does not bind tightly enough, the call ends with the tree. -/
theorem Outcome.of_follows {run : Except ParseError (Expr × List Token)}
    (h : g.Outcome depth power e s run) (hg : g.failure = none)
    (hs : Follows (fun op => 10 * op.precedence < power) s) :
    run = .error .tooDeep ∧ depth < e.height ∨ run = .ok (e, s) ∧ e.height ≤ maxDepth := by
  cases h with
  | tooDeep h => exact .inl ⟨rfl, h⟩
  | operators hdepth hheight hcount =>
    exact .inr ⟨run_operators_of_stops hg hs.stops, hheight⟩

/-- A call that has made a tree gets on with it if the tree is not too high. -/
theorem outcome_ite (hdepth : depth + 1 ≤ maxDepth) (hcount : s.length < count) :
    g.Outcome (depth + 1) power e s (if e.height ≤ maxDepth then
      (g.operators (g.expression depth) power count e e.height).run s else .error .tooDeep) := by
  split
  · next hheight => exact .operators rfl hheight hcount
  · next hheight => exact .tooDeep (Nat.lt_of_le_of_lt hdepth (Nat.lt_of_not_le hheight))

/-- A call that takes its operand from the tokens. -/
theorem outcome_of_operand (hdepth : depth + 1 ≤ maxDepth)
    (h : (g.operand (g.expression depth)).run ts = .ok (e, s)) :
    g.Outcome (depth + 1) power e s ((g.expression (depth + 1) power).run ts) := by
  rw [expression_succ, run_inner_of_operand h]
  exact outcome_ite hdepth (Nat.lt_succ_self _)

/-! ### Chains of members -/

/-- The loop takes the members of a chain, one in each turn. -/
theorem operators_members (hg : g.failure = none) (hmembers : IsMembers members)
    (hpower : power ≤ 80) (hdepth : depth + 1 ≤ maxDepth) {p : BinaryOp → Prop} (hs : Follows p s)
    (hheight : left.height ≤ maxDepth) (hcount : (members ++ s).length < count) :
    g.Outcome (depth + 1) power (left.withMembers g.catalog members) s
      ((g.operators (g.expression depth) power count left left.height).run (members ++ s)) := by
  induction hmembers generalizing left count with
  | nil => exact .operators rfl hheight hcount
  | @cons dot name rest hdot hname h ih =>
    obtain _ | count := count
    · exact absurd hcount (Nat.not_lt_zero _)
    have hlevels : left.height + 1 =
        (Expr.member left (left.declaringName g.catalog) name.text).height := by
      rw [Expr.height, Nat.add_comm]
    rw [List.cons_append, List.cons_append,
      run_operators_member hg hpower hdot hname (h.head_ne hs.head_ne), run_checkLevels, hlevels,
      Expr.withMembers]
    simp only [List.cons_append, List.length_cons] at hcount
    split
    · next hle => exact ih hle (by omega)
    · next hgt =>
      refine .tooDeep (Nat.lt_of_lt_of_le ?_ (Expr.height_le_withMembers rest))
      omega

/-! ### Factors and trees -/

/-- A call reads a factor, whatever operator follows. -/
theorem expression_isFactor (hg : g.failure = none) (h : g.IsFactor ts e)
    (hpower : power ≤ prefixPower) (hdepth : depth ≤ maxDepth) (hs : Follows (fun _ => True) s) :
    g.Outcome depth power e s ((g.expression depth power).run (ts ++ s)) := by
  induction h generalizing depth power with
  | @number t e hkind hread =>
    obtain _ | depth := depth
    · exact .tooDeep Expr.height_pos
    refine outcome_of_operand hdepth ?_
    rw [List.singleton_append, operand, Parser.run_bind_of_eq run_next_cons, hkind]
    show (number t).run s = _
    rw [number, hread]
    rfl
  | @chain t p members hkind hparam hmembers =>
    obtain _ | depth := depth
    · exact .tooDeep Expr.height_pos
    have hoperand : (g.operand (g.expression depth)).run (t :: (members ++ s)) =
        .ok (.param p.name p.model, members ++ s) := by
      rw [operand, Parser.run_bind_of_eq run_next_cons, hkind]
      show (g.identifier (g.expression depth) t).run (members ++ s) = _
      rw [identifier, hparam]
      rfl
    have hheight : (Expr.param p.name p.model).height ≤ maxDepth := by
      rw [Expr.height]
      decide
    rw [List.cons_append, expression_succ, run_inner_of_operand hoperand, if_pos hheight]
    have hpower : power ≤ 80 := Nat.le_trans hpower (by decide)
    exact operators_members hg hmembers hpower hdepth hs hheight (Nat.lt_succ_self _)
  | @leading op ts us e h he ih =>
    obtain _ | depth := depth
    · exact .tooDeep Expr.height_pos
    have hheight : (Expr.unary op e).height = e.height + 1 := by
      rw [Expr.height, Nat.add_comm]
    have hloose : Follows (fun op => 10 * op.precedence < prefixPower) s := by
      intro t ht
      obtain ⟨op, hop, -⟩ := hs t ht
      have hlt := (binds_of_binaryOp? hop).lt_prefixPower
      exact ⟨op, hop, Nat.lt_of_succ_lt hlt⟩
    have hrun : (g.operand (g.expression depth)).run (ts ++ (us ++ s)) = _ := h.run_operand
    have hnested := ih (Nat.le_refl prefixPower) (Nat.le_of_succ_le hdepth)
    obtain ⟨herror, hlt⟩ | ⟨hok, -⟩ := hnested.of_follows hg hloose
    · rw [StateT.run_bind, herror] at hrun
      rw [List.append_assoc, expression_succ, inner, StateT.run_bind, hrun]
      exact .tooDeep (by omega)
    · rw [Parser.run_bind_of_eq hok] at hrun
      rw [List.append_assoc]
      exact outcome_of_operand hdepth hrun

/-- After its left operand, a call takes an operator and reads the right operand. -/
theorem operators_binary (hg : g.failure = none) (hop : binaryOp? t.kind = some op)
    (hpower : power ≤ 10 * op.precedence) (hdepth : depth + 1 ≤ maxDepth)
    (hcount : (t :: (us ++ s)).length < count)
    (hright : g.Outcome depth (10 * op.precedence + 1) right s
      ((g.expression depth (10 * op.precedence + 1)).run (us ++ s)))
    (hs : Follows (fun next => next.precedence ≤ op.precedence) s) :
    g.Outcome (depth + 1) power (.binary op left right) s
      ((g.operators (g.expression depth) power count left left.height).run (t :: (us ++ s))) := by
  have hheight : (Expr.binary op left right).height = max left.height right.height + 1 := by
    rw [Expr.height, Nat.add_comm]
  obtain _ | count := count
  · exact absurd hcount (Nat.not_lt_zero _)
  have hturn : (g.turn (g.expression depth) power left left.height).run (t :: (us ++ s)) = _ :=
    run_turn_of_binaryOp? hop hpower
  have hloose : Follows (fun next => 10 * next.precedence < 10 * op.precedence + 1) s :=
    hs.mono fun next hle => by omega
  rw [operators_succ, StateT.run_bind, hturn]
  obtain ⟨herror, hlt⟩ | ⟨hok, -⟩ := hright.of_follows hg hloose
  · rw [StateT.run_bind, herror]
    exact .tooDeep (by omega)
  · rw [Parser.run_bind_of_eq hok]
    show g.Outcome (depth + 1) power (.binary op left right) s
      ((do
        checkLevels (max left.height right.height + 1)
        g.operators (g.expression depth) power count (.binary op left right)
          (max left.height right.height + 1) : Parser Expr).run s)
    rw [run_checkLevels, ← hheight]
    simp only [List.length_cons, List.length_append] at hcount
    exact outcome_ite hdepth (by omega)

/-- The tokens that a tree is written with: those of its operands, with an operator between them. -/
inductive Reads (g : Grammar) : List Token → Expr → Prop
  | factor {ts : List Token} {e : Expr} (h : g.IsFactor ts e) : Reads g ts e
  | binary {ts us : List Token} {t : Token} {op : BinaryOp} {left right : Expr}
    (hleft : Reads g ts left) (hop : binaryOp? t.kind = some op) (hright : Reads g us right) :
    Reads g (ts ++ t :: us) (.binary op left right)

/-- A call reads a grouped tree, if its power is not above the operator at the root and what follows
binds no more tightly than that. -/
theorem expression_reads (hg : g.failure = none) (h : g.Reads ts e) (he : e.Grouped)
    (hpower : power ≤ prefixPower) (hroot : ∀ o ∈ e.infixOp?, power ≤ 10 * o.precedence)
    (hdepth : depth ≤ maxDepth)
    (hs : Follows (fun next => ∀ o ∈ e.infixOp?, next.precedence ≤ o.precedence) s) :
    g.Outcome depth power e s ((g.expression depth power).run (ts ++ s)) := by
  -- The induction is over what the tree is written with. The left operand is read by the same call,
  -- the right one by a nested call whose power lets only tighter operators in.
  induction h generalizing depth power s with
  | factor h => exact expression_isFactor hg h hpower hdepth (hs.mono fun _ _ => trivial)
  | @binary ts us t op left right hl hop hr ihl ihr =>
    have hbinds := binds_of_binaryOp? hop
    obtain ⟨hleft, hright, hle, hlt⟩ := (Expr.grouped_binary_iff hbinds.ne_index).1 he
    rw [Expr.infixOp?_binary hbinds.ne_index] at hroot hs
    have hpowerOp : power ≤ 10 * op.precedence := hroot op rfl
    have hsOp : Follows (fun next => next.precedence ≤ op.precedence) s :=
      hs.mono fun next hnext => hnext op rfl
    have hrootLeft : ∀ o ∈ left.infixOp?, power ≤ 10 * o.precedence := by
      intro o ho
      have hprecedence := hle o ho
      omega
    have hcall := ihl hleft hpower hrootLeft hdepth (follows_cons hop hle (s := us ++ s))
    rw [List.append_assoc, List.cons_append]
    generalize (g.expression depth power).run (ts ++ t :: (us ++ s)) = run at hcall ⊢
    cases hcall with
    | tooDeep hlow =>
      have hheight : left.height < (Expr.binary op left right).height := by
        rw [Expr.height]
        omega
      exact .tooDeep (Nat.lt_trans hlow hheight)
    | @operators depth' count hsucc hheight hcount =>
      obtain rfl := hsucc
      have hrootRight : ∀ o ∈ right.infixOp?, 10 * op.precedence + 1 ≤ 10 * o.precedence := by
        intro o ho
        have hprecedence := hlt o ho
        omega
      have hsRight : Follows (fun next => ∀ o ∈ right.infixOp?, next.precedence ≤ o.precedence) s :=
        hsOp.mono fun next hnext o ho =>
          Nat.le_trans hnext (Nat.le_of_lt (hlt o ho))
      have hnested := ihr hright (Nat.le_of_lt hbinds.lt_prefixPower) hrootRight
        (Nat.le_of_succ_le hdepth) hsRight
      exact operators_binary hg hop hpowerOp hdepth hcount hnested hsOp

/-! ### Sequences of factors -/

/-- A factor with its tokens and its tree. -/
structure Factor (g : Grammar) where
  tokens : List Token
  tree : Expr
  isFactor : g.IsFactor tokens tree

/-- An operator that stands between two operands, with its token. -/
structure Operator where
  token : Token
  op : BinaryOp
  binaryOp? : binaryOp? token.kind = some op

/-- The tokens of operators with factors after them. -/
def tokensOf (rest : List (Operator × g.Factor)) : List Token :=
  rest.flatMap fun item => item.1.token :: item.2.tokens

/-- The operators and the trees of the factors after them. -/
def itemsOf (rest : List (Operator × g.Factor)) : List (BinaryOp × Expr) :=
  rest.map fun item => (item.1.op, item.2.tree)

theorem areItems_itemsOf (rest : List (Operator × g.Factor)) : AreItems (itemsOf rest) := by
  intro item hitem
  obtain ⟨⟨operator, factor⟩, -, rfl⟩ := List.mem_map.1 hitem
  exact ⟨(binds_of_binaryOp? operator.binaryOp?).ne_index, factor.isFactor.infixOp?_eq_none⟩

/-- A tree to which a factor is attached is written with the tokens of the factor at the end. -/
theorem Reads.attach (h : g.Reads ts e) (hop : binaryOp? t.kind = some op)
    (hright : g.IsFactor us right) : g.Reads (ts ++ t :: us) (e.attach op right) := by
  induction h with
  | @factor ts e h =>
    rw [Expr.attach_of_le (by simp [h.infixOp?_eq_none])]
    exact .binary (.factor h) hop (.factor hright)
  | @binary ts vs u root left right hl hroot hr ihl ihr =>
    have hne := (binds_of_binaryOp? hroot).ne_index
    by_cases hlt : root.precedence < op.precedence
    · rw [Expr.attach_of_lt hne hlt, List.append_assoc, List.cons_append]
      exact .binary hl hroot ihr
    · rw [Expr.attach_of_le (by simpa [hne] using hlt)]
      exact .binary (.binary hl hroot hr) hop (.factor hright)

/-- The tree to which a sequence is grouped is written with the tokens of the sequence. -/
theorem Reads.group (h : g.Reads ts e) (rest : List (Operator × g.Factor)) :
    g.Reads (ts ++ tokensOf rest) (e.group (itemsOf rest)) := by
  induction rest generalizing ts e with
  | nil =>
    rw [tokensOf, List.flatMap_nil, List.append_nil]
    exact h
  | cons item rest ih =>
    have hnext := ih (h.attach item.1.binaryOp? item.2.isFactor)
    rw [List.append_assoc] at hnext
    exact hnext

/-- A body that a grouped tree is written with is parsed to that tree, if it is not too high. -/
theorem run'_lambdaOf (hg : g.failure = none) (h : g.Reads s e) (he : e.Grouped) :
    g.lambdaOf.run' s =
      if e.height ≤ maxDepth then .ok (.lambda g.params e) else .error .tooDeep := by
  have hbody : g.Outcome maxDepth 0 e [] _ :=
    expression_reads hg h he (Nat.zero_le _) (fun _ _ => Nat.zero_le _) (Nat.le_refl _) nofun
  rw [List.append_nil] at hbody
  rw [StateT.run'_eq, lambdaOf]
  obtain ⟨herror, hlt⟩ | ⟨hok, hle⟩ := hbody.of_follows hg nofun
  · rw [StateT.run_bind, herror, if_neg (Nat.not_le.2 hlt)]
    rfl
  · rw [Parser.run_bind_of_eq hok, Parser.run_bind_of_eq (run_next?_nil hg), if_pos hle]
    rfl

/-- From a text whose body is a sequence of factors with operators between them, the tree is parsed
that has the factors and operators of the sequence in order and is grouped by precedence. There is
exactly one such tree, and the text is only refused if it is too high. -/
theorem parseLambda_factors {catalog : Catalog} {model text : String} (first : g.Factor)
    (rest : List (Operator × g.Factor)) (hg : g.failure = none)
    (hbody : IsBody catalog model text g (first.tokens ++ tokensOf rest)) :
    ∃ e : Expr, (e.inOrder = (first.tree, itemsOf rest) ∧ e.Grouped) ∧
      (∀ e' : Expr, e'.inOrder = (first.tree, itemsOf rest) ∧ e'.Grouped → e' = e) ∧
      parseLambda catalog model text =
        if e.height ≤ maxDepth then .ok (.lambda g.params e) else .error .tooDeep := by
  obtain ⟨e, ⟨horder, he⟩, hunique⟩ :=
    Expr.existsUnique_grouped first.isFactor.infixOp?_eq_none (areItems_itemsOf rest)
  have hreads := (Reads.factor first.isFactor).group rest
  have hgroup := he.group_eq
  rw [horder] at hgroup
  rw [hgroup] at hreads
  refine ⟨e, ⟨horder, he⟩, hunique, ?_⟩
  rw [parseLambda_of_isBody hbody]
  exact run'_lambdaOf hg hreads he

/-- A minus sign before a chain, and operators of three precedences. -/
theorem parseLambda_factors_negated :
    let text := "p => -p.Id + 1 * 2 == 3"
    let g : Grammar := { catalog := default, params := [⟨"p", "Person"⟩] }
    let int : Int64 → Expr := fun n => .ofValue (.int n)
    let sum : Expr := .binary .add (.unary .negate (.memberOf (.param "p" "Person") "Id"))
      (.binary .multiply (int 1) (int 2))
    ∃ (first : g.Factor) (rest : List (Operator × g.Factor)),
      g.failure = none ∧ IsBody default "Person" text g (first.tokens ++ tokensOf rest) ∧
      (Expr.binary .equal sum (int 3)).inOrder = (first.tree, itemsOf rest) ∧
      (Expr.binary .equal sum (int 3)).Grouped ∧
      parseLambda default "Person" text = .ok (.lambda g.params (.binary .equal sum (int 3))) := by
  intro text g int sum
  let chain : List Token :=
    [⟨.identifier, 6, encode "p"⟩, ⟨.dot, 7, encode "."⟩, ⟨.identifier, 8, encode "Id"⟩]
  let tokens : List Token := [⟨.identifier, 0, encode "p"⟩, ⟨.arrow, 2, encode "=>"⟩,
    ⟨.minus, 5, encode "-"⟩] ++ chain ++ [⟨.plus, 11, encode "+"⟩, ⟨.number, 13, encode "1"⟩,
    ⟨.asterisk, 15, encode "*"⟩, ⟨.number, 17, encode "2"⟩, ⟨.equals, 19, encode "=="⟩,
    ⟨.number, 22, encode "3"⟩]
  have hchain : g.IsFactor chain ((Expr.param "p" "Person").withMembers default chain.tail) :=
    .chain (p := ⟨"p", "Person"⟩) rfl rfl (.cons rfl rfl .nil)
  let first : g.Factor := ⟨⟨.minus, 5, encode "-"⟩ :: chain, _, .leading (.negate rfl) hchain⟩
  let rest : List (Operator × g.Factor) :=
    [(⟨⟨.plus, 11, encode "+"⟩, .add, rfl⟩, ⟨[⟨.number, 13, encode "1"⟩], int 1, .number rfl rfl⟩),
      (⟨⟨.asterisk, 15, encode "*"⟩, .multiply, rfl⟩,
        ⟨[⟨.number, 17, encode "2"⟩], int 2, .number rfl rfl⟩),
      (⟨⟨.equals, 19, encode "=="⟩, .equal, rfl⟩,
        ⟨[⟨.number, 22, encode "3"⟩], int 3, .number rfl rfl⟩)]
  have htokens : tokenize (encode text) = (tokens, none) := by decide
  have hbody : IsBody default "Person" text g (first.tokens ++ tokensOf rest) :=
    ⟨tokens, none, ["p"], tokens.tail, ⟨.arrow, 2, encode "=>"⟩, htokens, rfl, rfl, rfl⟩
  have hgrouped : (Expr.binary .equal sum (int 3)).Grouped :=
    .binary (by decide)
      (.binary (by decide) (.operand rfl)
        (.binary (by decide) (.operand rfl) (.operand rfl) (by decide) (by decide)) (by decide)
        (by decide))
      (.operand rfl) (by decide) (by decide)
  obtain ⟨e, -, hunique, hparse⟩ := parseLambda_factors first rest rfl hbody
  obtain rfl := hunique (.binary .equal sum (int 3)) ⟨rfl, hgrouped⟩
  rw [if_pos (by decide)] at hparse
  exact ⟨first, rest, rfl, hbody, rfl, hgrouped, hparse⟩

end Grammar

end PredicateSql
