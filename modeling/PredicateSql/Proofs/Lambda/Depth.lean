import PredicateSql.Proofs.Lambda.Binding
import PredicateSql.Proofs.Lambda.Turns

/-!
# The limit on depth

No text takes the parser deeper than `maxDepth`, neither in its calls nor in the trees that it
builds.

* `Expr.heightUpTo`: a height that is measured no further than to a cap.
* `Grammar.Grows`: what a turn of the loop makes of a tree. The levels, which are counted along the
  way, stay the height of the tree (`Grammar.Grows.height_eq`), though only what is new is measured.
* `Grammar.turn_grows`, `Grammar.expression_low`: every turn grows the tree so, and every expression
  is low enough, by induction on the depth.
* `Grammar.Calls`: a computation calls for a nested expression. `Grammar.Active`: calls that are
  under way at once.
* `Grammar.depth_bounded`: the limit on calls and the limit on heights, for every text.
-/

namespace PredicateSql

namespace Expr

/-! ### Heights -/

theorem heightOfAll_le_iff {es : List Expr} {n : Nat} :
    heightOfAll es ≤ n ↔ ∀ e ∈ es, e.height ≤ n := by
  induction es with
  | nil => simp [heightOfAll]
  | cons e es ih => rw [heightOfAll, Nat.max_le, ih, List.forall_mem_cons]

/-- The height of a tree, measured no further than to one level past a cap. -/
def heightUpTo : Nat → Expr → Nat
  | 0, _ => 1
  | cap + 1, e => 1 + (e.operands.map (heightUpTo cap)).foldl max 0

/-- Measured to a cap, the highest of some trees is as high as the cap allows. -/
theorem foldl_heightUpTo {cap : Nat} (h : ∀ e : Expr, e.heightUpTo cap = min e.height (cap + 1))
    (es : List Expr) (levels : Nat) :
    (es.map (heightUpTo cap)).foldl max levels = max levels (min (heightOfAll es) (cap + 1)) := by
  induction es generalizing levels with
  | nil => simp [heightOfAll]
  | cons e es ih =>
    rw [List.map_cons, List.foldl_cons, ih, h, heightOfAll]
    omega

/-- The cap only hides how high a tree is that is higher. -/
theorem heightUpTo_eq (cap : Nat) (e : Expr) : e.heightUpTo cap = min e.height (cap + 1) := by
  induction cap generalizing e with
  | zero =>
    have hpos : 0 < e.height := height_pos
    rw [heightUpTo]
    omega
  | succ cap ih =>
    rw [heightUpTo, foldl_heightUpTo ih, height_eq]
    omega

end Expr

namespace Grammar

open PredicateSql.Parser (Yields)
open PredicateSql.Expr (heightOfAll heightOfAll_le_iff)
open PredicateSql.Text.Utf8 (encode)

variable {g : Grammar} {sub : Nat → Parser Expr} {power depth levels levels' : Nat}
  {left tree : Expr} {s t : List Token}

/-! ### Trees that grow -/

/-- The levels after a turn: what stands in the tree beside its first operand is measured, but only
to the limit. -/
def levelsAfter (levels : Nat) (tree : Expr) : Nat :=
  ((tree.operands.drop 1).map (·.heightUpTo maxDepth)).foldl max levels + 1

/-- A turn puts the tree so far into a new one, beside parts that are not too high. -/
structure Grows (left : Expr) (levels : Nat) (tree : Expr) (levels' : Nat) : Prop where
  exists_parts : ∃ parts, tree.operands = left :: parts ∧ (∀ e ∈ parts, e.height ≤ maxDepth) ∧
    levels' = max levels (heightOfAll parts) + 1

theorem Grows.height_eq (h : Grows left levels tree levels') (hlevels : levels = left.height) :
    levels' = tree.height := by
  obtain ⟨parts, hoperands, -, rfl⟩ := h.exists_parts
  rw [tree.height_eq, hoperands, heightOfAll, hlevels, Nat.add_comm]

/-- No part is so high that the limit on the measurement matters. -/
theorem Grows.levels_eq (h : Grows left levels tree levels') :
    levels' = levelsAfter levels tree := by
  obtain ⟨parts, hoperands, hparts, rfl⟩ := h.exists_parts
  have hall : heightOfAll parts ≤ maxDepth := heightOfAll_le_iff.2 hparts
  have hfold := Expr.foldl_heightUpTo (Expr.heightUpTo_eq maxDepth) parts levels
  rw [levelsAfter, hoperands, List.drop_succ_cons, List.drop_zero, hfold]
  omega

/-- The nested expressions are not too high. -/
def NestedLow (sub : Nat → Parser Expr) : Prop :=
  ∀ power, (sub power).Yields fun e => e.height ≤ maxDepth

theorem suffix_grows (hsub : NestedLow sub) (levels : Nat) :
    (g.suffix sub left).Yields fun tree =>
      Grows left levels tree (max levels (suffixHeight tree) + 1) := by
  unfold suffix
  refine Yields.after fun t => Yields.ite (fun _ => ?_) fun _ => Yields.after fun member => ?_
  · refine (hsub 0).bind fun index hindex => Yields.after fun _ => Yields.pure ?_
    have hheight : suffixHeight (.binary .index left index) = heightOfAll [index] := by
      rw [suffixHeight, heightOfAll, heightOfAll, Nat.max_zero]
    exact ⟨[index], rfl, List.forall_mem_singleton.2 hindex, by rw [hheight]⟩
  · refine Yields.after fun hasArgs => Yields.ite (fun _ => ?_) fun _ => Yields.pure ?_
    · exact (list_yields hsub).bind fun args hargs => Yields.pure ⟨args, rfl, hargs, rfl⟩
    · exact ⟨[], rfl, List.forall_mem_nil _, rfl⟩

theorem between_grows (hsub : NestedLow sub) {t : Token} {right : Nat} :
    (g.between sub t right left levels).Yields fun result =>
      Grows left levels result.1 result.2 := by
  unfold between
  refine Yields.ite (fun _ => ?_) fun _ => (hsub right).bind fun operand hoperand => ?_
  · refine (hsub 0).bind fun ifTrue hTrue => Yields.after fun _ => ?_
    refine (hsub right).bind fun ifFalse hFalse => Yields.pure ⟨[ifTrue, ifFalse], rfl, ?_, ?_⟩
    · exact List.forall_mem_cons.2 ⟨hTrue, List.forall_mem_singleton.2 hFalse⟩
    · simp [heightOfAll]
  · split
    · refine Yields.pure ⟨[operand], rfl, List.forall_mem_singleton.2 hoperand, ?_⟩
      simp [heightOfAll]
    · exact Yields.throw

/-- Every turn makes the tree grow by parts that are not too high. -/
theorem turn_grows (hsub : NestedLow sub) :
    (g.turn sub power left levels).Yields fun result =>
      ∀ tree levels', result = some (tree, levels') → Grows left levels tree levels' := by
  unfold turn
  refine Yields.after fun next => ?_
  split
  · split
    · refine Yields.ite (fun _ => Yields.pure nofun) fun _ => ?_
      refine (suffix_grows hsub levels).bind fun tree htree => Yields.pure ?_
      rintro _ _ ⟨⟩
      exact htree
    · refine Yields.ite (fun _ => Yields.pure nofun) fun _ => Yields.after fun _ => ?_
      refine (between_grows hsub).bind fun result hresult => Yields.pure ?_
      rintro _ _ ⟨⟩
      exact hresult
    · exact Yields.pure nofun
  · exact Yields.pure nofun

theorem checkLevels_yields : (checkLevels levels).Yields fun _ => levels ≤ maxDepth :=
  Yields.ite (fun h => Yields.pure h) fun _ => Yields.throw

theorem operators_low (hsub : NestedLow sub) (count : Nat) (hlevels : levels = left.height)
    (hleft : left.height ≤ maxDepth) :
    (g.operators sub power count left levels).Yields fun e => e.height ≤ maxDepth := by
  induction count generalizing left levels with
  | zero => exact Yields.pure hleft
  | succ count ih =>
    rw [operators_succ]
    refine (turn_grows hsub).bind fun result hresult => ?_
    split
    · exact Yields.pure hleft
    · next tree levels' =>
      have hheight := (hresult tree levels' rfl).height_eq hlevels
      refine checkLevels_yields.bind fun _ hle => ih hheight ?_
      rwa [← hheight]

/-- No expression is too high. -/
theorem expression_low (depth : Nat) : NestedLow (g.expression depth) := by
  induction depth with
  | zero => exact fun _ => Yields.throw
  | succ depth ih =>
    intro power
    rw [expression_succ]
    unfold inner
    refine Yields.after fun left => checkLevels_yields.bind fun _ hleft => ?_
    exact Yields.after fun rest => operators_low ih _ rfl hleft

/-! ### Calls that are under way -/

/-- The parser for nested expressions, where it fails in one of its calls. -/
def failingAt (sub : Nat → Parser Expr) (power : Nat) (t : List Token) (e : ParseError) :
    Nat → Parser Expr :=
  fun p s => if p = power ∧ s = t then .error e else sub p s

/-- From the tokens `s` on, the computation calls for an expression nested in it, with some power and
at the tokens `t`: where this call fails, so does the computation. -/
def Calls (m : (Nat → Parser Expr) → Parser Expr) (sub : Nat → Parser Expr) (s : List Token)
    (power : Nat) (t : List Token) : Prop :=
  ∀ e, (m (failingAt sub power t e)).run s = .error e

theorem Calls.run_eq_error {m : (Nat → Parser Expr) → Parser Expr} {e : ParseError}
    (h : Calls m sub s power t) (he : (sub power).run t = .error e) : (m sub).run s = .error e := by
  -- If the call fails by itself, then nothing changes where it is made to fail.
  have hsame : failingAt sub power t e = sub := by
    funext p u
    unfold failingAt
    split
    · next heq =>
      obtain ⟨rfl, rfl⟩ := heq
      exact he.symm
    · rfl
  rw [← hsame]
  exact h e

/-- A call for an expression: how many calls may be nested in it, the power, and the tokens. -/
structure Call where
  depth : Nat
  power : Nat
  tokens : List Token

/-- The calls that are under way at once, while an expression is parsed from the tokens `s` on. The
innermost one comes first. -/
inductive Active (g : Grammar) (s : List Token) : List Call → Prop
  | outer {depth : Nat} (hdepth : maxDepth = depth + 1) : Active g s [⟨depth, 0, s⟩]
  | nested {call : Call} {below : List Call} {depth power : Nat} {t : List Token}
    (h : Active g s (call :: below))
    (hcall : Calls (g.inner call.power) (g.expression call.depth) call.tokens power t)
    (hdepth : call.depth = depth + 1) : Active g s (⟨depth, power, t⟩ :: call :: below)

/-- Each call takes one level of the depth. -/
theorem Active.depth_add_length {call : Call} {below : List Call}
    (h : g.Active s (call :: below)) : call.depth + (call :: below).length = maxDepth := by
  generalize hcalls : call :: below = calls at h
  induction h generalizing call below with
  | outer hdepth =>
    obtain ⟨rfl, rfl⟩ := List.cons.inj hcalls
    exact hdepth.symm
  | nested h hcall hdepth ih =>
    obtain ⟨rfl, rfl⟩ := List.cons.inj hcalls
    have hbelow := ih rfl
    simp only [List.length_cons] at hbelow ⊢
    omega

theorem Active.length_le {calls : List Call} (h : g.Active s calls) : calls.length ≤ maxDepth := by
  cases calls with
  | nil => exact Nat.zero_le _
  | cons call below =>
    have hlength := h.depth_add_length
    omega

/-- Where the innermost call fails, so does the whole expression. -/
theorem Active.run_eq_error {call : Call} {below : List Call} {e : ParseError}
    (h : g.Active s (call :: below))
    (he : (g.inner call.power (g.expression call.depth)).run call.tokens = .error e) :
    (g.expression maxDepth 0).run s = .error e := by
  generalize hcalls : call :: below = calls at h
  induction h generalizing call below with
  | outer hdepth =>
    obtain ⟨rfl, rfl⟩ := List.cons.inj hcalls
    rw [hdepth, expression_succ]
    exact he
  | @nested outer below' depth power t h hcall hdepth ih =>
    obtain ⟨rfl, rfl⟩ := List.cons.inj hcalls
    refine ih (hcall.run_eq_error ?_) rfl
    rw [hdepth, expression_succ]
    exact he

/-- If all calls that may be nested are under way, one more fails. -/
theorem Active.tooDeep {call : Call} {below : List Call} (h : g.Active s (call :: below))
    (hfull : (call :: below).length = maxDepth)
    (hcall : Calls (g.inner call.power) (g.expression call.depth) call.tokens power t) :
    (g.expression maxDepth 0).run s = .error .tooDeep := by
  have hlength := h.depth_add_length
  have hdepth : call.depth = 0 := by omega
  refine h.run_eq_error (hcall.run_eq_error ?_)
  rw [hdepth]
  rfl

/-! ### Turns that are taken -/

/-- In a call, the loop over operators gets to a tree with some levels and to the tokens that follow
it. -/
inductive Turns (g : Grammar) (call : Call) : Expr → Nat → List Token → Prop
  | first {left : Expr} {t : List Token}
    (hoperand : (g.operand (g.expression call.depth)).run call.tokens = .ok (left, t))
    (hlevels : left.height ≤ maxDepth) : Turns g call left left.height t
  | next {left tree : Expr} {levels levels' : Nat} {t u : List Token}
    (h : Turns g call left levels t)
    (hturn : (g.turn (g.expression call.depth) call.power left levels).run t =
      .ok (some (tree, levels'), u))
    (hlevels : levels' ≤ maxDepth) : Turns g call tree levels' u

/-- At every turn, the levels are the height of the tree so far. -/
theorem Turns.levels_eq {call : Call} (h : g.Turns call left levels t) :
    levels = left.height ∧ levels ≤ maxDepth := by
  induction h with
  | first hoperand hlevels => exact ⟨rfl, hlevels⟩
  | next h hturn hlevels ih =>
    have hgrows := turn_grows (expression_low _) _ _ _ hturn _ _ rfl
    exact ⟨hgrows.height_eq ih.1, hlevels⟩

/-! ### Texts -/

/-- The tree of a text is not too high. -/
theorem height_of_lambdaOf {e : Expr} (h : g.lambdaOf.run' s = .ok e) :
    ∃ params body, e = .lambda params body ∧ body.height ≤ maxDepth := by
  obtain ⟨t, ht⟩ := Parser.run'_eq_ok.1 h
  obtain ⟨body, u, hbody, ht⟩ := Parser.run_bind_eq_ok.1 ht
  obtain ⟨next, v, -, ht⟩ := Parser.run_bind_eq_ok.1 ht
  cases next with
  | some => cases ht
  | none =>
    cases ht
    exact ⟨g.params, body, rfl, expression_low maxDepth 0 s body u hbody⟩

/-- If the body of a text fails, so does the text. -/
theorem lambdaOf_eq_error {e : ParseError} (h : (g.expression maxDepth 0).run s = .error e) :
    g.lambdaOf.run' s = .error e := by
  rw [StateT.run'_eq, lambdaOf, StateT.run_bind, h]
  rfl

/-- For every text, the tree is not too high; no more calls are under way at once than `maxDepth`,
and a call beyond them makes the text fail; and at every turn of the loop over operators, the levels
are the height of the tree so far. -/
theorem depth_bounded (catalog : Catalog) (model text : String) :
    (∀ tree, parseLambda catalog model text = .ok tree →
      ∃ params body, tree = .lambda params body ∧ body.height ≤ maxDepth) ∧
    ∀ g s, IsBody catalog model text g s → ∀ call below, g.Active s (call :: below) →
      (call :: below).length ≤ maxDepth ∧
      (∀ power t, Calls (g.inner call.power) (g.expression call.depth) call.tokens power t →
        (∃ depth, g.Active s (⟨depth, power, t⟩ :: call :: below)) ∨
          (call :: below).length = maxDepth ∧
            parseLambda catalog model text = .error .tooDeep) ∧
      ∀ left levels t, g.Turns call left levels t →
        levels = left.height ∧ levels = left.heightUpTo maxDepth ∧ levels ≤ maxDepth ∧
        ∀ tree levels' u,
          (g.turn (g.expression call.depth) call.power left levels).run t =
            .ok (some (tree, levels'), u) →
          levels' = tree.height ∧ levels' = levelsAfter levels tree := by
  refine ⟨fun tree htree => ?_, fun g s hbody call below hactive => ⟨hactive.length_le, ?_, ?_⟩⟩
  · obtain ⟨g, s, hbody⟩ := exists_isBody_of_parseLambda htree
    rw [parseLambda_of_isBody hbody] at htree
    exact height_of_lambdaOf htree
  · intro power t hcall
    by_cases hdepth : call.depth = 0
    · right
      have hlength := hactive.depth_add_length
      have hfull : (call :: below).length = maxDepth := by omega
      refine ⟨hfull, ?_⟩
      rw [parseLambda_of_isBody hbody]
      exact lambdaOf_eq_error (hactive.tooDeep hfull hcall)
    · exact .inl ⟨call.depth - 1, hactive.nested hcall (by omega)⟩
  · intro left levels t hturns
    obtain ⟨hheight, hle⟩ := hturns.levels_eq
    refine ⟨hheight, ?_, hle, fun tree levels' u hturn => ?_⟩
    · rw [Expr.heightUpTo_eq, ← hheight]
      omega
    · have hgrows := turn_grows (expression_low _) _ _ _ hturn _ _ rfl
      exact ⟨hgrows.height_eq hheight, hgrows.levels_eq⟩

/-- A sum between parentheses: the call for the sum is under way inside the call for the body, and
one turn makes the sum. -/
theorem depth_bounded_group :
    let text := "p => (1 + 2)"
    let g : Grammar := { catalog := default, params := [⟨"p", "Person"⟩] }
    let group : List Token := [⟨.number, 6, encode "1"⟩, ⟨.plus, 8, encode "+"⟩,
      ⟨.number, 10, encode "2"⟩, ⟨.parenRight, 11, encode ")"⟩]
    let body : Call := ⟨199, 0, ⟨.parenLeft, 5, encode "("⟩ :: group⟩
    let nested : Call := ⟨198, 0, group⟩
    let one : Expr := .ofValue (.int 1)
    let sum : Expr := .binary .add one (.ofValue (.int 2))
    let turn := (g.turn (g.expression nested.depth) nested.power one 1).run group.tail
    parseLambda default "Person" text = .ok (.lambda g.params sum) ∧ sum.height ≤ maxDepth ∧
      IsBody default "Person" text g body.tokens ∧
      Calls (g.inner body.power) (g.expression body.depth) body.tokens nested.power nested.tokens ∧
      (∃ depth, g.Active body.tokens [⟨depth, nested.power, nested.tokens⟩, body]) ∧
      g.Active body.tokens [nested, body] ∧ [nested, body].length ≤ maxDepth ∧
      g.Turns nested one 1 group.tail ∧ 1 = one.height ∧
      turn = .ok (some (sum, 2), [⟨.parenRight, 11, encode ")"⟩]) ∧ 2 = sum.height := by
  intro text g group body nested one sum turn
  let arrow : Token := ⟨.arrow, 2, encode "=>"⟩
  have hbody : IsBody default "Person" text g body.tokens :=
    ⟨⟨.identifier, 0, encode "p"⟩ :: arrow :: body.tokens, none, ["p"], arrow :: body.tokens, arrow,
      by decide, rfl, rfl, rfl⟩
  have hparse : parseLambda default "Person" text = .ok (.lambda g.params sum) := by
    rw [parseLambda_of_isBody hbody]
    rfl
  have hcall : Calls (g.inner body.power) (g.expression body.depth) body.tokens nested.power
      nested.tokens := fun e => rfl
  have hfirst : g.Active body.tokens [body] := .outer rfl
  have hactive : g.Active body.tokens [nested, body] := hfirst.nested hcall rfl
  have hturns : g.Turns nested one 1 group.tail := .first rfl (by decide)
  have hturn : turn = .ok (some (sum, 2), [⟨.parenRight, 11, encode ")"⟩]) := rfl
  obtain ⟨hheight, hcalls⟩ := depth_bounded default "Person" text
  obtain ⟨_, _, heq, hle⟩ := hheight _ hparse
  obtain ⟨rfl, rfl⟩ := Expr.lambda.inj heq
  obtain ⟨-, hnested, -⟩ := hcalls g _ hbody body [] hfirst
  obtain ⟨hlength, -, hlevels⟩ := hcalls g _ hbody nested [body] hactive
  obtain ⟨hone, -, -, hnext⟩ := hlevels _ _ _ hturns
  have hdepth := (hnested _ _ hcall).resolve_right fun hfull => absurd hfull.1 (by decide)
  exact ⟨hparse, hle, hbody, hcall, hdepth, hactive, hlength, hturns, hone, hturn,
    (hnext _ _ _ hturn).1⟩

end Grammar

end PredicateSql
