import Mathlib.Data.List.Forall2
import PredicateSql.Lambda.Parser

/-!
# Texts that differ by one member

Two lists of tokens that differ by the member `Value` after a chain of members of a parameter, and
the places elsewhere, are parsed side by side.

* `Parser.Matches`: where one computation succeeds, so does the other, unless a tree gets too high.
  `Matches.bind` puts such pairs of computations together.
* `Gap`: the tokens around the place where `Value` is inserted. `Gap.Apart`: how much of two such
  lists is left, before the gap or after it.
* `run_next_cons`, `run_consume_of_eq` and so on: a single token is taken off a list.
  `next_matches`, `consume_matches` and so on: single tokens are taken off both lists alike.
-/

namespace PredicateSql

/-! ### Pairs of computations -/

namespace Parser

variable {α β γ δ : Type} {m : Parser α} {m' : Parser β} {s s' : List Token}
  {R : α → List Token → β → List Token → Prop}

/-- A computation succeeds where its first step and what follows from it do. -/
theorem run_bind_eq_ok {f : α → Parser β} {b : β} {u : List Token} :
    (m >>= f).run s = .ok (b, u) ↔ ∃ a t, m.run s = .ok (a, t) ∧ (f a).run t = .ok (b, u) := by
  rw [StateT.run_bind]
  cases m.run s with
  | error e => exact ⟨nofun, fun ⟨_, _, h, _⟩ => nomatch h⟩
  | ok x =>
    constructor
    · exact fun h => ⟨x.1, x.2, rfl, h⟩
    · rintro ⟨_, _, ⟨⟩, h⟩
      exact h

theorem run_bind_of_eq {f : α → Parser β} {t : List Token} {a : α} (h : m.run s = .ok (a, t)) :
    (m >>= f).run s = (f a).run t := by
  rw [StateT.run_bind, h]
  rfl

theorem run'_eq_ok {a : α} : m.run' s = .ok a ↔ ∃ t, m.run s = .ok (a, t) := by
  rw [StateT.run'_eq]
  cases m.run s with
  | error e => exact ⟨nofun, nofun⟩
  | ok x =>
    constructor
    · rintro ⟨⟩
      exact ⟨x.2, rfl⟩
    · rintro ⟨t, ⟨⟩⟩
      rfl

/-- Where `m` succeeds from the tokens `s`, so does `m'` from `s'`, unless a tree gets too high; the
results and the tokens that are left stand in the relation `R`. -/
def Matches (m : Parser α) (m' : Parser β) (s s' : List Token)
    (R : α → List Token → β → List Token → Prop) : Prop :=
  ∀ a t, m.run s = .ok (a, t) →
    m'.run s' = .error .tooDeep ∨ ∃ b t', m'.run s' = .ok (b, t') ∧ R a t b t'

namespace Matches

theorem pure {a : α} {b : β} (h : R a s b s') :
    Matches (Pure.pure a) (Pure.pure b) s s' R := by
  intro a' t ha
  cases ha
  exact .inr ⟨b, s', rfl, h⟩

theorem throw {e : ParseError} : Matches (MonadExcept.throw e) m' s s' R :=
  nofun

theorem mono {R' : α → List Token → β → List Token → Prop} (h : Matches m m' s s' R)
    (hR : ∀ a t b t', R a t b t' → R' a t b t') : Matches m m' s s' R' := by
  intro a t ha
  obtain hdeep | ⟨b, t', hb, hab⟩ := h a t ha
  · exact .inl hdeep
  · exact .inr ⟨b, t', hb, hR a t b t' hab⟩

theorem bind {f : α → Parser γ} {g : β → Parser δ} {S : γ → List Token → δ → List Token → Prop}
    (h : Matches m m' s s' R) (hfg : ∀ a t b t', R a t b t' → Matches (f a) (g b) t t' S) :
    Matches (m >>= f) (m' >>= g) s s' S := by
  intro c u hc
  obtain ⟨a, t, ha, hc⟩ := run_bind_eq_ok.1 hc
  obtain hdeep | ⟨b, t', hb, hab⟩ := h a t ha
  · rw [StateT.run_bind, hdeep]
    exact .inl rfl
  · rw [run_bind_of_eq hb]
    exact hfg a t b t' hab c u hc

/-- A computation that fails matches any other. -/
theorem throw_bind {e : ParseError} {f : α → Parser γ} {S : γ → List Token → β → List Token → Prop} :
    Matches ((MonadExcept.throw e : Parser α) >>= f) m' s s' S :=
  nofun

theorem ite {p q : Prop} [Decidable p] [Decidable q] {n : Parser α} {n' : Parser β} (hpq : p ↔ q)
    (hm : p → Matches m m' s s' R) (hn : ¬ p → Matches n n' s s' R) :
    Matches (if p then m else n) (if q then m' else n') s s' R := by
  by_cases hp : p
  · rw [if_pos hp, if_pos (hpq.1 hp)]
    exact hm hp
  · rw [if_neg hp, if_neg (mt hpq.2 hp)]
    exact hn hp

/-- The first computation fails where the condition does not hold. -/
theorem guard {p q : Prop} [Decidable p] [Decidable q] {e e' : ParseError} {f : Unit → Parser γ}
    {g : Unit → Parser δ} {S : γ → List Token → δ → List Token → Prop} (hpq : p ↔ q)
    (h : ¬ p → Matches (f ()) (g ()) s s' S) :
    Matches (if p then (MonadExcept.throw e : Parser Unit) >>= f else f ())
      (if q then (MonadExcept.throw e' : Parser Unit) >>= g else g ()) s s' S :=
  .ite hpq (fun _ => .throw_bind) h

/-- Computations that run on like others match where these do. -/
theorem of_run {w : Parser α} {w' : Parser β} {t t' : List Token} (hm : m.run s = w.run t)
    (hm' : m'.run s' = w'.run t') (h : Matches w w' t t' R) : Matches m m' s s' R := by
  intro a u ha
  rw [hm'] at *
  exact h a u (hm ▸ ha)

theorem get : Matches MonadState.get MonadState.get s s'
    (fun a t b t' => a = s ∧ t = s ∧ b = s' ∧ t' = s') := by
  intro a t ha
  cases ha
  exact .inr ⟨s', s', rfl, rfl, rfl, rfl, rfl⟩

theorem set {t t' : List Token} : Matches (MonadState.set t) (MonadState.set t') s s'
    (fun _ u _ u' => u = t ∧ u' = t') := by
  intro a u ha
  cases ha
  exact .inr ⟨⟨⟩, t', rfl, rfl, rfl⟩

/-- A tree of the second computation that is too high is allowed for. -/
theorem checkLevels_right {levels : Nat} (h : Matches m m' s s' R) :
    Matches m (do Grammar.checkLevels levels; m') s s' R := by
  unfold Grammar.checkLevels
  split
  · exact h
  · exact fun _ _ _ => .inl rfl

end Matches

end Parser

/-! ### Tokens -/

/-- The tokens are the same, apart from where they stand. -/
structure Token.Alike (t t' : Token) : Prop where
  kind : t.kind = t'.kind
  source : t.source = t'.source

theorem Token.Alike.text {t t' : Token} (h : t.Alike t') : t.text = t'.text := by
  rw [Token.text, Token.text, Token.contents, Token.contents, h.kind, h.source]

/-- Members that are taken one after the other: a dot and a name for each. -/
inductive IsMembers : List Token → Prop
  | nil : IsMembers []
  | cons {dot name : Token} {rest : List Token} (hdot : dot.kind = .dot)
    (hname : name.kind = .identifier) (h : IsMembers rest) : IsMembers (dot :: name :: rest)

/-- No method is called in the middle of a chain. -/
theorem IsMembers.head_ne {members rest : List Token} (h : IsMembers members)
    (hrest : ∀ t ∈ rest.head?, t.kind ≠ .parenLeft) :
    ∀ t ∈ (members ++ rest).head?, t.kind ≠ .parenLeft := by
  cases h with
  | nil => exact hrest
  | cons hdot =>
    intro t ht
    obtain rfl := Option.some.inj ht
    rw [hdot]
    decide

/-- A chain of members ends with a name. -/
theorem IsMembers.getLast?_kind {members : List Token} (h : IsMembers members) :
    ∀ t ∈ members.getLast?, t.kind = .identifier := by
  induction h with
  | nil => nofun
  | @cons dot name rest hdot hname h ih =>
    intro t ht
    cases rest with
    | nil =>
      obtain rfl := Option.some.inj ht
      exact hname
    | cons x rest => exact ih t (by simpa using ht)

/-- A chain of members of a parameter, the tokens of the member `Value` that is added to it, and the
tokens that follow in either text. -/
structure Gap where
  param : Token
  members : List Token
  dot : Token
  value : Token
  after : List Token
  after' : List Token
  param_kind : param.kind = .identifier
  isMembers : IsMembers members
  members_ne_nil : members ≠ []
  dot_kind : dot.kind = .dot
  value_kind : value.kind = .identifier
  value_text : value.text = "Value"
  after_alike : List.Forall₂ Token.Alike after after'
  /-- The last member is no method. -/
  after_head : ∀ t ∈ after.head?, t.kind ≠ .parenLeft

namespace Gap

variable (gap : Gap)

/-- The tokens from the parameter on, without `Value`. -/
def short : List Token :=
  gap.param :: (gap.members ++ gap.after)

/-- The tokens from the parameter on, with `Value`. -/
def long : List Token :=
  gap.param :: (gap.members ++ gap.dot :: gap.value :: gap.after')

/-- What is left of two lists of tokens: before the gap, the same tokens up to the parameter, of
which the last is no dot; after it, tokens that are alike. -/
inductive Apart : Bool → List Token → List Token → Prop
  | ahead {before : List Token} (h : ∀ t ∈ before.getLast?, t.kind ≠ .dot) :
    Apart false (before ++ gap.short) (before ++ gap.long)
  | past {s s' : List Token} (h : List.Forall₂ Token.Alike s s') : Apart true s s'

/-- What is left is apart, and no longer than some bounds. -/
structure At (n n' : Nat) (passed : Bool) (s s' : List Token) : Prop where
  apart : gap.Apart passed s s'
  length : s.length ≤ n
  length' : s'.length ≤ n'

theorem members_eq : ∃ dot name rest, gap.members = dot :: name :: rest ∧ dot.kind = .dot ∧
    name.kind = .identifier ∧ IsMembers rest := by
  cases hmembers : gap.members with
  | nil => exact absurd hmembers gap.members_ne_nil
  | cons x more =>
    have h := gap.isMembers
    rw [hmembers] at h
    cases h with
    | cons hdot hname hrest => exact ⟨_, _, _, rfl, hdot, hname, hrest⟩

theorem after_head' : ∀ t ∈ gap.after'.head?, t.kind ≠ .parenLeft := by
  intro t ht
  have halike := gap.after_alike
  cases hafter : gap.after' with
  | nil =>
    rw [hafter] at ht
    cases ht
  | cons y rest =>
    rw [hafter] at ht halike
    obtain rfl := Option.some.inj ht
    obtain ⟨x, u, hx, -, hxu⟩ := List.forall₂_cons_right_iff.1 halike
    rw [← hx.kind]
    exact gap.after_head x (by rw [hxu]; rfl)

variable {gap} {n n' : Nat} {passed : Bool} {s s' t t' : List Token} {x x' : Token}

theorem At.mono {k k' : Nat} (h : gap.At n n' passed s s') (hk : n ≤ k) (hk' : n' ≤ k') :
    gap.At k k' passed s s' :=
  ⟨h.apart, Nat.le_trans h.length hk, Nat.le_trans h.length' hk'⟩

/-- No token is left only after the gap. -/
theorem At.passed_of_nil (h : gap.At n n' passed s s') (hs : s = []) : passed = true := by
  cases h.apart with
  | ahead => exact absurd hs (List.append_ne_nil_of_right_ne_nil _ (List.cons_ne_nil _ _))
  | past => rfl

/-- What is left when a token is taken off both lists: the parameter of the chain, or a token before
the gap or after it. -/
inductive Takes (gap : Gap) (n n' : Nat) : Bool → Token → Token → List Token → List Token → Prop
  | token {passed : Bool} {x x' : Token} {t t' : List Token} (h : x.Alike x')
    (hat : gap.At n n' passed t t') : Takes gap n n' passed x x' t t'
  | param (h : (gap.members ++ gap.after).length ≤ n)
    (h' : (gap.members ++ gap.dot :: gap.value :: gap.after').length ≤ n') :
    Takes gap n n' false gap.param gap.param (gap.members ++ gap.after)
      (gap.members ++ gap.dot :: gap.value :: gap.after')

/-- After the parameter, a dot follows in both lists. -/
theorem Takes.cases (h : gap.Takes n n' passed x x' t t') :
    gap.At n n' passed t t' ∨ passed = false ∧ x = gap.param ∧ x' = gap.param ∧
      ∃ dot u u', dot.kind = .dot ∧ t = dot :: u ∧ t' = dot :: u' := by
  cases h with
  | token _ hat => exact .inl hat
  | param =>
    obtain ⟨dot, name, rest, hmembers, hdot, -⟩ := gap.members_eq
    rw [hmembers]
    exact .inr ⟨rfl, rfl, rfl, dot, _, _, hdot, rfl, rfl⟩

theorem Takes.alike (h : gap.Takes n n' passed x x' t t') : x.Alike x' := by
  cases h with
  | token h => exact h
  | param => exact ⟨rfl, rfl⟩

/-- The parameter is an identifier, so any other token leaves the lists apart. -/
theorem Takes.at_of_kind (h : gap.Takes n n' passed x x' t t') (hx : x.kind ≠ .identifier) :
    gap.At n n' passed t t' := by
  cases h with
  | token _ hat => exact hat
  | param => exact absurd gap.param_kind hx

theorem At.uncons (h : gap.At (n + 1) (n' + 1) passed s s') :
    s = [] ∧ s' = [] ∨
      ∃ x x' t t', s = x :: t ∧ s' = x' :: t' ∧ gap.Takes n n' passed x x' t t' := by
  obtain ⟨hapart, hlength, hlength'⟩ := h
  cases hapart with
  | @ahead before hlast =>
    refine .inr ?_
    cases before with
    | nil => exact ⟨_, _, _, _, rfl, rfl, .param (Nat.le_of_succ_le_succ hlength)
        (Nat.le_of_succ_le_succ hlength')⟩
    | cons x rest =>
      refine ⟨x, x, rest ++ gap.short, rest ++ gap.long, rfl, rfl, .token ⟨rfl, rfl⟩ ⟨.ahead ?_,
        Nat.le_of_succ_le_succ hlength, Nat.le_of_succ_le_succ hlength'⟩⟩
      intro t ht
      cases rest with
      | nil => cases ht
      | cons => exact hlast t (by simpa using ht)
  | past halike =>
    cases halike with
    | nil => exact .inl ⟨rfl, rfl⟩
    | cons hx hrest =>
      exact .inr ⟨_, _, _, _, rfl, rfl, .token hx ⟨.past hrest, Nat.le_of_succ_le_succ hlength,
        Nat.le_of_succ_le_succ hlength'⟩⟩

/-- What follows a dot is not the parameter of the chain. -/
theorem At.uncons_name (h : gap.At n n' passed (x :: s) (x' :: s')) (hx : x.kind = .dot) :
    s = [] ∧ s' = [] ∨
      ∃ y y' t t', s = y :: t ∧ s' = y' :: t' ∧ y.Alike y' ∧
        gap.At s.length s'.length passed t t' := by
  have hapart := h.apart
  generalize hl : x :: s = l, hl' : x' :: s' = l' at hapart
  cases hapart with
  | @ahead before hlast =>
    rcases before with _ | ⟨z, _ | ⟨y, rest⟩⟩
    · obtain ⟨rfl, -⟩ := List.cons.inj hl
      rw [gap.param_kind] at hx
      cases hx
    · obtain ⟨rfl, -⟩ := List.cons.inj hl
      exact absurd hx (hlast x rfl)
    · obtain ⟨rfl, rfl⟩ := List.cons.inj hl
      obtain ⟨rfl, rfl⟩ := List.cons.inj hl'
      refine .inr ⟨y, y, rest ++ gap.short, rest ++ gap.long, rfl, rfl, ⟨rfl, rfl⟩, .ahead ?_,
        Nat.le_succ _, Nat.le_succ _⟩
      intro t ht
      cases rest with
      | nil => cases ht
      | cons => exact hlast t (by simpa using ht)
  | past halike =>
    subst hl hl'
    obtain ⟨-, hs⟩ := List.forall₂_cons.1 halike
    cases hs with
    | nil => exact .inl ⟨rfl, rfl⟩
    | cons hy hrest => exact .inr ⟨_, _, _, _, rfl, rfl, hy, .past hrest,
        Nat.le_succ _, Nat.le_succ _⟩

end Gap

/-! ### Single tokens -/

namespace Grammar

variable {gap : Gap} {g : Grammar} {n n' : Nat} {passed : Bool} {s s' : List Token}
  {x x' : Token} {kind : TokenKind} {what : String}

open PredicateSql.Parser (Matches)

theorem run_next_cons : g.next.run (x :: s) = .ok (x, s) :=
  rfl

theorem run_next?_cons : g.next?.run (x :: s) = .ok (some x, s) :=
  rfl

theorem run_next?_nil (hg : g.failure = none) : g.next?.run [] = .ok (none, []) := by
  rw [next?, hg]
  rfl

theorem run_peek?_cons : g.peek?.run (x :: s) = .ok (some x, x :: s) :=
  rfl

theorem run_peek?_nil (hg : g.failure = none) : g.peek?.run [] = .ok (none, []) := by
  rw [peek?, hg]
  rfl

theorem run_consume_of_eq (h : x.kind = kind) :
    (g.consume kind).run (x :: s) = .ok (true, s) := by
  rw [consume, Parser.run_bind_of_eq run_peek?_cons]
  dsimp only
  rw [if_pos h]
  rfl

theorem run_consume_of_ne (h : x.kind ≠ kind) :
    (g.consume kind).run (x :: s) = .ok (false, x :: s) := by
  rw [consume, Parser.run_bind_of_eq run_peek?_cons]
  dsimp only
  rw [if_neg h]
  rfl

/-- The next token of both lists, where the first one has any. -/
theorem next?_matches (hg : g.failure = none) (h : gap.At (n + 1) (n' + 1) passed s s') :
    Matches g.next? g.next? s s' fun o t o' t' =>
      o = none ∧ o' = none ∧ s = [] ∧ s' = [] ∧ t = [] ∧ t' = [] ∨
      ∃ x x', o = some x ∧ o' = some x' ∧ s = x :: t ∧ s' = x' :: t' ∧
        gap.Takes n n' passed x x' t t' := by
  intro o t ho
  obtain ⟨rfl, rfl⟩ | ⟨x, x', u, u', rfl, rfl, htakes⟩ := h.uncons
  · rw [next?, hg] at ho ⊢
    cases ho
    exact .inr ⟨none, [], rfl, .inl ⟨rfl, rfl, rfl, rfl, rfl, rfl⟩⟩
  · cases ho
    exact .inr ⟨some x', u', rfl, .inr ⟨x, x', rfl, rfl, rfl, rfl, htakes⟩⟩

theorem next_matches (hg : g.failure = none) (h : gap.At (n + 1) (n' + 1) passed s s') :
    Matches g.next g.next s s' fun x t x' t' =>
      s = x :: t ∧ s' = x' :: t' ∧ gap.Takes n n' passed x x' t t' := by
  refine (next?_matches hg h).bind fun o t o' t' ho => ?_
  obtain ⟨rfl, rfl, -⟩ | ⟨x, x', rfl, rfl, hs, hs', htakes⟩ := ho
  · exact .throw
  · exact .pure ⟨hs, hs', htakes⟩

/-- The kind of the next token of both lists. -/
theorem peek?_matches (hg : g.failure = none) (h : gap.At n n' passed s s') :
    Matches g.peek? g.peek? s s' fun o t o' t' => t = s ∧ t' = s' ∧
      (o = none ∧ o' = none ∨ ∃ x x' u u', o = some x ∧ o' = some x' ∧ s = x :: u ∧ s' = x' :: u' ∧
        x.Alike x') := by
  intro o t ho
  obtain ⟨rfl, rfl⟩ | ⟨x, x', u, u', rfl, rfl, htakes⟩ := (h.mono n.le_succ n'.le_succ).uncons
  · rw [peek?, hg] at ho ⊢
    cases ho
    exact .inr ⟨none, [], rfl, rfl, rfl, .inl ⟨rfl, rfl⟩⟩
  · cases ho
    exact .inr ⟨some x', x' :: u', rfl, rfl, rfl,
      .inr ⟨x, x', u, u', rfl, rfl, rfl, rfl, htakes.alike⟩⟩

theorem comesNext_matches (hg : g.failure = none) (h : gap.At n n' passed s s') :
    Matches (g.comesNext kind) (g.comesNext kind) s s' fun b t b' t' =>
      b = b' ∧ t = s ∧ t' = s' := by
  refine (peek?_matches hg h).bind fun o t o' t' ho => ?_
  obtain ⟨rfl, rfl, ⟨rfl, rfl⟩ | ⟨x, x', u, u', rfl, rfl, -, -, hx⟩⟩ := ho
  · exact .pure ⟨rfl, rfl, rfl⟩
  · exact .pure ⟨by rw [hx.kind], rfl, rfl⟩

/-- A token that is no identifier is taken off both lists or off none of them. -/
theorem consume_matches (hg : g.failure = none) (hkind : kind ≠ .identifier)
    (h : gap.At n n' passed s s') :
    Matches (g.consume kind) (g.consume kind) s s' fun b t b' t' =>
      b = b' ∧ gap.At n n' passed t t' ∧
        (b = true → ∃ x x', s = x :: t ∧ s' = x' :: t' ∧ x.kind = kind) := by
  refine (peek?_matches hg h).bind fun o t o' t' ho => ?_
  obtain ⟨rfl, rfl, ⟨rfl, rfl⟩ | ⟨x, x', u, u', rfl, rfl, rfl, rfl, hx⟩⟩ := ho
  · exact .pure ⟨rfl, h, nofun⟩
  · refine .ite (by rw [hx.kind]) (fun heq => ?_) fun _ => .pure ⟨rfl, h, nofun⟩
    obtain ⟨hnil, -⟩ | ⟨_, _, _, _, hs, hs', htakes⟩ := (h.mono n.le_succ n'.le_succ).uncons
    · cases hnil
    · cases hs
      cases hs'
      intro b t ht
      cases ht
      exact .inr ⟨true, u', rfl, rfl, htakes.at_of_kind (heq ▸ hkind),
        fun _ => ⟨x, x', rfl, rfl, heq⟩⟩

theorem expect_matches (hg : g.failure = none) (hkind : kind ≠ .identifier)
    (h : gap.At n n' passed s s') :
    Matches (g.expect kind what) (g.expect kind what) s s' fun x t x' t' =>
      x.Alike x' ∧ gap.At n n' passed t t' := by
  refine (next_matches hg (h.mono n.le_succ n'.le_succ)).bind fun x t x' t' hx => ?_
  obtain ⟨rfl, rfl, htakes⟩ := hx
  exact .ite (by rw [htakes.alike.kind])
    (fun heq => .pure ⟨htakes.alike, htakes.at_of_kind (heq ▸ hkind)⟩) fun _ => .throw

theorem expect_identifier_matches (hg : g.failure = none)
    (h : gap.At (n + 1) (n' + 1) passed s s') :
    Matches (g.expect .identifier what) (g.expect .identifier what) s s' fun x t x' t' =>
      gap.Takes n n' passed x x' t t' := by
  refine (next_matches hg h).bind fun x t x' t' hx => ?_
  obtain ⟨rfl, rfl, htakes⟩ := hx
  exact .ite (by rw [htakes.alike.kind]) (fun _ => .pure htakes) fun _ => .throw

/-- Where other tokens are looked for, a dot is not taken. -/
theorem consume_dot_matches (hx : x.kind = .dot) (hkind : kind ≠ .dot) :
    Matches (g.consume kind) (g.consume kind) (x :: s) (x :: s') fun b t b' t' =>
      b = false ∧ b' = false ∧ t = x :: s ∧ t' = x :: s' := by
  have hne : ¬ x.kind = kind := fun heq => hkind (heq.symm.trans hx)
  intro b t hb
  rw [run_consume_of_ne hne] at hb
  cases hb
  exact .inr ⟨false, x :: s', run_consume_of_ne hne, rfl, rfl, rfl, rfl⟩

theorem comesNext_cons_matches :
    Matches (g.comesNext kind) (g.comesNext kind) (x :: s) (x' :: s') fun b t b' t' =>
      b = (x.kind == kind) ∧ b' = (x'.kind == kind) ∧ t = x :: s ∧ t' = x' :: s' := by
  intro b t hb
  cases hb
  exact .inr ⟨_, _, rfl, rfl, rfl, rfl, rfl⟩

theorem next_cons_matches :
    Matches g.next g.next (x :: s) (x' :: s') fun y t y' t' =>
      y = x ∧ y' = x' ∧ t = s ∧ t' = s' := by
  intro y t hy
  cases hy
  exact .inr ⟨x', s', rfl, rfl, rfl, rfl, rfl⟩

/-- Where another token is required, a dot is an error. -/
theorem expect_dot_bind_matches {α β : Type} {f : Token → Parser α} {m : Parser β}
    {R : α → List Token → β → List Token → Prop} (hx : x.kind = .dot) (hkind : kind ≠ .dot) :
    Matches (g.expect kind what >>= f) m (x :: s) s' R := by
  have hne : ¬ x.kind = kind := fun heq => hkind (heq.symm.trans hx)
  intro a t ha
  obtain ⟨y, u, hy, -⟩ := Parser.run_bind_eq_ok.1 ha
  change (if x.kind = kind then _ else _ : Parser Token).run s = _ at hy
  rw [if_neg hne] at hy
  cases hy

/-- At the end of the tokens there is no next one. -/
theorem next_nil_matches (hg : g.failure = none) {R : Token → List Token → Token → List Token → Prop} :
    Matches g.next g.next [] s' R := by
  intro x t hx
  rw [next, next?, hg] at hx
  cases hx

/-- A name after a dot. -/
theorem expect_name_matches (hg : g.failure = none) (hx : x.kind = .dot)
    (h : gap.At n n' passed (x :: s) (x' :: s')) :
    Matches (g.expect kind what) (g.expect kind what) s s' fun y t y' t' =>
      y.Alike y' ∧ gap.At s.length s'.length passed t t' := by
  obtain ⟨rfl, rfl⟩ | ⟨y, y', t, t', rfl, rfl, hy, hat⟩ := h.uncons_name hx
  · exact (next_nil_matches (R := fun _ _ _ _ => False) hg).bind fun _ _ _ _ => False.elim
  · refine next_cons_matches.bind fun _ _ _ _ hnext => ?_
    obtain ⟨rfl, rfl, rfl, rfl⟩ := hnext
    exact .ite (by rw [hy.kind]) (fun _ => .pure ⟨hy, hat⟩) fun _ => .throw

end Grammar

end PredicateSql
