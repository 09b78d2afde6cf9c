import PredicateSql.Proofs.Lambda.Gap

/-!
# Calls and turns of the parser

The parts that a run of the parser is made of.

* `Grammar.IsBody`: the grammar and the tokens that the body of a lambda is parsed with.
  `Grammar.parseLambda_of_isBody`: what is parsed from a text, told by its body.
* `Grammar.inner`: what a call for an expression does if it is not nested too deep.
* `Grammar.turn`: one turn of the loop over operators. `Grammar.operators_succ`: the loop takes one
  turn after the other.
-/

namespace PredicateSql

namespace Grammar

variable {g : Grammar} {sub : Nat → Parser Expr} {power count levels : Nat} {left : Expr}

/-! ### The body of a lambda -/

/-- The body of the lambda in a text is parsed with the grammar `g`, from the tokens `s` on. -/
def IsBody (catalog : Catalog) (model text : String) (g : Grammar) (s : List Token) : Prop :=
  ∃ tokens failure names u arrow,
    tokenize (Text.Utf8.encode text) = (tokens, failure) ∧
    ({ catalog, failure } : Grammar).paramNames.run tokens = .ok (names, u) ∧
    (({ catalog, failure } : Grammar).expect .arrow "'=>'").run u = .ok (arrow, s) ∧
    g = { catalog, failure, params := names.map fun name => ⟨name, model⟩ }

/-- The lambda with a body, which takes all tokens. -/
def lambdaOf (g : Grammar) : Parser Expr := do
  let body ← g.expression maxDepth 0
  match ← g.next? with
  | some t => throw (.ofToken t)
  | none => return .lambda g.params body

/-- What is parsed from a text is told by its body. -/
theorem parseLambda_of_isBody {catalog : Catalog} {model text : String} {s : List Token}
    (h : IsBody catalog model text g s) : parseLambda catalog model text = g.lambdaOf.run' s := by
  obtain ⟨tokens, failure, names, u, arrow, htokens, hnames, harrow, rfl⟩ := h
  rw [parseLambda, htokens]
  dsimp only
  rw [StateT.run'_eq, StateT.run'_eq, lambda, Parser.run_bind_of_eq hnames,
    Parser.run_bind_of_eq harrow]
  rfl

/-- A text that gives a tree has a body. -/
theorem exists_isBody_of_parseLambda {catalog : Catalog} {model text : String} {tree : Expr}
    (h : parseLambda catalog model text = .ok tree) : ∃ g s, IsBody catalog model text g s := by
  obtain ⟨t, ht⟩ := Parser.run'_eq_ok.1 h
  obtain ⟨names, u, hnames, ht⟩ := Parser.run_bind_eq_ok.1 ht
  obtain ⟨arrow, s, harrow, -⟩ := Parser.run_bind_eq_ok.1 ht
  exact ⟨_, s, _, _, names, u, arrow, rfl, hnames, harrow, rfl⟩

/-! ### Calls -/

/-- What a call for an expression does if it is not nested too deep. It calls `sub` for the
expressions in it. -/
def inner (g : Grammar) (power : Nat) (sub : Nat → Parser Expr) : Parser Expr := do
  let left ← g.operand sub
  checkLevels left.height
  g.operators sub power ((← get).length + 1) left left.height

theorem expression_succ (depth : Nat) :
    g.expression (depth + 1) power = g.inner power (g.expression depth) :=
  rfl

theorem run_checkLevels {α : Type} {m : Parser α} {s : List Token} :
    (do checkLevels levels; m : Parser α).run s =
      if levels ≤ maxDepth then m.run s else .error .tooDeep := by
  unfold checkLevels
  split <;> rfl

/-- A call starts with an operand. -/
theorem run_inner_of_operand {s t : List Token} (h : (g.operand sub).run s = .ok (left, t)) :
    (g.inner power sub).run s = if left.height ≤ maxDepth then
      (g.operators sub power (t.length + 1) left left.height).run t else .error .tooDeep := by
  rw [inner, Parser.run_bind_of_eq h, run_checkLevels]
  rfl

/-! ### Turns -/

/-- One turn of the loop over operators: the tree that is made of the tree so far, and its levels, if
the loop goes on. -/
def turn (g : Grammar) (sub : Nat → Parser Expr) (power : Nat) (left : Expr) (levels : Nat) :
    Parser (Option (Expr × Nat)) := do
  let some t ← g.peek? | return none
  match postfixPower? t.kind, infixPowers? t.kind with
  | some p, _ =>
    if p < power then return none
    let tree ← g.suffix sub left
    return some (tree, max levels (suffixHeight tree) + 1)
  | none, some (p, right) =>
    if p < power then return none
    let _ ← g.next
    return some (← g.between sub t right left levels)
  | none, none => return none

/-- The loop takes one turn after the other, as long as the tree is not too high. -/
theorem operators_succ : g.operators sub power (count + 1) left levels = (do
    match ← g.turn sub power left levels with
    | none => return left
    | some (tree, levels) =>
      checkLevels levels
      g.operators sub power count tree levels) := by
  rw [operators, turn, bind_assoc]
  congr 1
  funext o
  cases o with
  | none => rw [pure_bind]
  | some t =>
    dsimp only
    cases postfixPower? t.kind with
    | some p =>
      dsimp only
      by_cases hp : p < power
      · rw [if_pos hp, if_pos hp, pure_bind]
      · rw [if_neg hp, if_neg hp, bind_assoc]
        simp only [pure_bind]
    | none =>
      cases infixPowers? t.kind with
      | none => rw [pure_bind]
      | some powers =>
        dsimp only
        by_cases hp : powers.1 < power
        · rw [if_pos hp, if_pos hp, pure_bind]
        · rw [if_neg hp, if_neg hp, bind_assoc]
          simp only [bind_assoc, pure_bind]

end Grammar

end PredicateSql
