import Mathlib.Order.Defs.Unbundled
import PredicateSql.Query.Terms

/-!
# Walks over stacks that are kept in place

A walk that is handed a `Scope` has nothing to put back. This is the other way to walk: what lies
around a node stands in one place, and every part of the walk changes it on its way in and undoes
the change on its way out, whatever became of the part.

* `Stacks`: what lies around a node. `Stacks.scope`: the same as it is handed down.
* `Entry.enter`, `Entry.leave`: the six ways into a part of a tree, and the way out of each.
  `Entry.leave_enter`: the way out of what was entered leads back.
* `Stacked`: a computation over stacks and a store. It may fail like any other walk, and it halts
  where the counter of negations would leave its 32 bits.
* `Stacked.entering`: a part of a walk. `Visited`: the record of such a part, and of the parts
  within it.
* `Stacked.Restores`: from whatever stacks the walk starts and whatever comes of it, it leaves the
  same stacks. Walks are put together by `Restores.bind`, `Restores.entering` and so on.
  `Restores.leavesAsFound`: nowhere in a part of such a walk is the counter below its value at the
  start of the part.
* `Stacked.Mirrors`: the walk finds and leaves what a computation does that is handed a scope.
-/

namespace PredicateSql

/-- What a walk knows of the tree around the node that it is at. What was pushed last is first. -/
structure Stacks where
  /-- Parameters and the models that they are bound to. -/
  binders : List (String × String) := []
  /-- The operators above the node. -/
  operators : List Sql.Operator := []
  /-- The members that wait for the value of the node. -/
  members : List String := []
  /-- The negations around the node. -/
  inversions : UInt32 := 0
  deriving Repr, DecidableEq, Inhabited

namespace Stacks

/-- The node stands under an odd number of negations. -/
def isInverted (k : Stacks) : Bool :=
  k.inversions % 2 == 1

/-- What lies around the node, without what no term depends on. -/
def scope (k : Stacks) : Scope :=
  { binders := k.binders, pending := k.members, negated := k.isInverted }

end Stacks

/-! ### Ways in and out -/

/-- A way into a part of a tree. -/
inductive Entry where
  /-- The owner of a member. -/
  | member (name : String)
  /-- What an operator is applied to. -/
  | operator (op : Sql.Operator)
  /-- The body of a lambda. -/
  | binder (p : Param)
  /-- The operand of a negation. -/
  | inverted
  /-- A value, which no negation around it reaches. -/
  | neutral
  /-- A node that no member is taken of. -/
  | isolated
  deriving Repr, DecidableEq, Inhabited

namespace Entry

/-- The stacks on the way in. There is none where the counter would overflow. -/
def enter (k : Stacks) : Entry → Option Stacks
  | .member name => some { k with members := name :: k.members }
  | .operator op => some { k with operators := op :: k.operators }
  | .binder p => some { k with binders := (p.name, p.model) :: k.binders }
  | .inverted =>
    if k.inversions.toNat + 1 < UInt32.size then some { k with inversions := k.inversions + 1 }
    else none
  | .neutral => some { k with inversions := 0 }
  | .isolated => some { k with members := [] }

/-- The stacks on the way out. Only what was replaced as a whole is taken from the stacks around;
the rest is undone where it stands, and there is none where the counter would underflow. -/
def leave (around k : Stacks) : Entry → Option Stacks
  | .member _ => some { k with members := k.members.tail }
  | .operator _ => some { k with operators := k.operators.tail }
  | .binder _ => some { k with binders := k.binders.tail }
  | .inverted => if k.inversions = 0 then none else some { k with inversions := k.inversions - 1 }
  | .neutral => some { k with inversions := around.inversions }
  | .isolated => some { k with members := around.members }

variable {entry : Entry} {k inside : Stacks}

theorem enter_inverted (h : Entry.inverted.enter k = some inside) :
    k.inversions.toNat + 1 < UInt32.size ∧ inside = { k with inversions := k.inversions + 1 } := by
  rw [enter] at h
  split at h
  · next hroom => exact ⟨hroom, (Option.some.inj h).symm⟩
  · cases h

theorem toNat_add_one {n : UInt32} (h : n.toNat + 1 < UInt32.size) :
    (n + 1).toNat = n.toNat + 1 := by
  rw [UInt32.toNat_add]
  exact Nat.mod_eq_of_lt h

/-- What was entered is left for the stacks around it. -/
theorem leave_enter (h : entry.enter k = some inside) : entry.leave k inside = some k := by
  cases entry with
  | inverted =>
    obtain ⟨hroom, rfl⟩ := enter_inverted h
    have hne : k.inversions + 1 ≠ 0 := by
      intro hzero
      have hnat := toNat_add_one hroom
      rw [hzero] at hnat
      cases hnat
    rw [leave, if_neg hne, UInt32.add_sub_cancel]
  | _ =>
    obtain rfl := Option.some.inj h
    rfl

/-- Only a neutral part starts with a lower counter than the part that it is entered from. -/
theorem inversions_le (h : entry.enter k = some inside) (hentry : entry ≠ .neutral) :
    k.inversions ≤ inside.inversions := by
  cases entry with
  | neutral => exact absurd rfl hentry
  | inverted =>
    obtain ⟨hroom, rfl⟩ := enter_inverted h
    rw [UInt32.le_iff_toNat_le, toNat_add_one hroom]
    exact Nat.le_succ _
  | _ =>
    obtain rfl := Option.some.inj h
    exact UInt32.le_refl _

end Entry

/-! ### Computations -/

/-- The record of a part of a walk: how it was entered, the stacks that it started with and those
that it ended with, and the parts within it. -/
inductive Visited where
  | mk (entry : Entry) (start finish : Stacks) (within : List Visited)
  deriving Inhabited

namespace Visited

/-- How the part was entered. -/
def entry : Visited → Entry
  | .mk entry _ _ _ => entry

/-- The stacks that the part started with. -/
def start : Visited → Stacks
  | .mk _ start _ _ => start

/-- The stacks that the part ended with, before its own change was undone. -/
def finish : Visited → Stacks
  | .mk _ _ finish _ => finish

end Visited

/-- Why a walk does not go on. -/
inductive Halt where
  | failed (err : QueryError)
  /-- The counter of negations would be above its 32 bits. -/
  | overflow
  /-- The counter of negations would be below zero. -/
  | underflow
  deriving Repr, Inhabited

/-- What a walk works on: its stacks, what it has found so far, and a record of its parts. -/
structure Stacked.State (σ : Type) where
  frame : Stacks
  store : σ
  visited : List Visited := []
  deriving Inhabited

/-- A computation over stacks and a store. -/
abbrev Stacked (σ α : Type) := ExceptT Halt (StateM (Stacked.State σ)) α

namespace Stacked

variable {σ α β : Type}

/-- The outcome of a walk, and what it leaves. -/
def outcome (w : Stacked σ α) (s : State σ) : Except Halt α × State σ :=
  w.run s

instance : MonadLift (Except QueryError) (Stacked σ) where
  monadLift
    | .ok a => pure a
    | .error err => throw (.failed err)

/-- The walk fails. -/
def fail (err : QueryError) : Stacked σ α :=
  throw (.failed err)

/-- The stacks at a node. -/
def frame : Stacked σ Stacks := do
  return (← get).frame

/-- Looks at what was found so far, and perhaps adds to it. -/
def onStore (w : σ → Except QueryError α × σ) : Stacked σ α :=
  fun s => ((w s.store).1.mapError .failed, { s with store := (w s.store).2 })

/-- The outcome of a part of a walk, once the change on the way in is undone. -/
def leaving (entry : Entry) (s : State σ) (inside : Stacks) (out : Except Halt α × State σ) :
    Except Halt α × State σ :=
  let visited := s.visited ++ [.mk entry inside out.2.frame out.2.visited]
  match entry.leave s.frame out.2.frame with
  | none => (.error .underflow, { out.2 with visited })
  | some frame => (out.1, { out.2 with frame, visited })

/-- A part of a walk. What was changed on the way in is undone on the way out, whatever became of
the part. -/
def entering (entry : Entry) (w : Stacked σ α) : Stacked σ α := fun s =>
  match entry.enter s.frame with
  | none => (.error .overflow, s)
  | some inside => leaving entry s inside (w.outcome { s with frame := inside, visited := [] })

/-- The body of a lambda. Only a lambda with one parameter has one. -/
def withLambda (params : List Param) (w : Stacked σ α) : Stacked σ α :=
  match params with
  | [p] => entering (.binder p) (entering (.operator .lambda) w)
  | _ => fail (.lambdaArity params.length)

/-- A walk that does not go on leaves nothing to the one after it. -/
theorem outcome_bind (w : Stacked σ α) (f : α → Stacked σ β) (s : State σ) :
    (w >>= f).outcome s =
      match w.outcome s with
      | (.ok a, s') => (f a).outcome s'
      | (.error halt, s') => (.error halt, s') := by
  show (match w.outcome s with
    | (r, s') => (ExceptT.bindCont f r : StateM (State σ) _) s') = _
  rcases w.outcome s with ⟨_ | _, _⟩ <;> rfl

theorem outcome_entering (entry : Entry) (w : Stacked σ α) (s : State σ) :
    (entering entry w).outcome s =
      match entry.enter s.frame with
      | none => (.error .overflow, s)
      | some inside =>
        leaving entry s inside (w.outcome { s with frame := inside, visited := [] }) :=
  rfl

/-- A part that ends with the stacks that it started with is left for the stacks around it. -/
theorem leaving_eq {entry : Entry} {s : State σ} {inside : Stacks} {out : Except Halt α × State σ}
    (henter : entry.enter s.frame = some inside) (hlevel : out.2.frame = inside) :
    leaving entry s inside out =
      (out.1, { out.2 with
        frame := s.frame
        visited := s.visited ++ [.mk entry inside inside out.2.visited] }) := by
  rw [leaving, hlevel, Entry.leave_enter henter]

end Stacked

/-! ### Records of level walks -/

namespace Visited

/-- A part that is entered from the stacks `around` and ends with the stacks that it started with,
as do all parts within it. -/
inductive IsLevel : Stacks → Visited → Prop where
  | mk {around start : Stacks} {entry : Entry} {within : List Visited}
    (henter : entry.enter around = some start) (hwithin : ∀ x ∈ within, IsLevel start x) :
    IsLevel around (.mk entry start start within)

/-- The part `y` is `x`, or lies within it. -/
inductive Holds : Visited → Visited → Prop where
  | self (x : Visited) : Holds x x
  | within {entry : Entry} {start finish : Stacks} {parts : List Visited} {x y : Visited}
    (hx : x ∈ parts) (hy : Holds x y) : Holds (.mk entry start finish parts) y

/-- The counter takes a value in a part. A neutral part within it counts for itself. -/
inductive Counts : Visited → UInt32 → Prop where
  | start (x : Visited) : Counts x x.start.inversions
  | finish (x : Visited) : Counts x x.finish.inversions
  | within {entry : Entry} {start finish : Stacks} {parts : List Visited} {x : Visited}
    {n : UInt32} (hx : x ∈ parts) (hentry : x.entry ≠ .neutral) (hn : Counts x n) :
    Counts (.mk entry start finish parts) n

variable {around : Stacks} {x y : Visited} {n : UInt32}

theorem IsLevel.finish_eq (h : x.IsLevel around) : x.finish = x.start := by
  cases h
  rfl

theorem IsLevel.enter (h : x.IsLevel around) : x.entry.enter around = some x.start := by
  cases h
  assumption

/-- The counter is nowhere in a part below the value that the part starts with. -/
theorem IsLevel.le_of_counts (h : x.IsLevel around) (hn : x.Counts n) :
    x.start.inversions ≤ n := by
  induction hn generalizing around with
  | start x => exact UInt32.le_refl _
  | finish x =>
    rw [h.finish_eq]
    exact UInt32.le_refl _
  | within hx hentry hn ih =>
    cases h with
    | mk _ hwithin =>
      have hlevel := hwithin _ hx
      exact UInt32.le_trans (Entry.inversions_le hlevel.enter hentry) (ih hlevel)

/-- All parts of a level part are level. -/
theorem IsLevel.holds (h : x.IsLevel around) (hy : x.Holds y) : ∃ around, y.IsLevel around := by
  induction hy generalizing around with
  | self x => exact ⟨around, h⟩
  | within hx hy ih =>
    cases h with
    | mk _ hwithin => exact ih (hwithin _ hx)

end Visited

/-! ### Walks that restore their stacks -/

namespace Stacked

variable {σ α β : Type} {R : σ → σ → Prop}

/-- An outcome with the stacks of the start. All parts of the walk are level, and what was found is
related to what had been found before. -/
structure Returns (R : σ → σ → Prop) (s : State σ) (out : Except Halt α × State σ) : Prop where
  frame : out.2.frame = s.frame
  store : R s.store out.2.store
  noUnderflow : out.1 ≠ .error .underflow
  visited : ∃ parts, out.2.visited = s.visited ++ parts ∧ ∀ x ∈ parts, x.IsLevel s.frame

/-- What a walk from the stacks `k` and the store `t` on leaves: the same stacks, and a store
related to the one it was given. Nowhere was the counter below its value at the start, and in each part
nowhere below its value at the start of the part; a neutral part counts for itself. -/
structure LeavesAsFound (R : σ → σ → Prop) (k : Stacks) (t : σ)
    (out : Except Halt α × State σ) : Prop where
  frame : out.2.frame = k
  store : R t out.2.store
  noUnderflow : out.1 ≠ .error .underflow
  counter : ∀ x ∈ out.2.visited, x.entry ≠ .neutral → ∀ n, x.Counts n → k.inversions ≤ n
  parts : ∀ x ∈ out.2.visited, ∀ y, x.Holds y →
    y.finish = y.start ∧ ∀ n, y.Counts n → y.start.inversions ≤ n

/-- From whatever stacks the walk starts and whatever comes of it, it restores them. -/
def Restores (R : σ → σ → Prop) (w : Stacked σ α) : Prop :=
  ∀ s, Returns R s (w.outcome s)

namespace Restores

theorem leavesAsFound {w : Stacked σ α} (h : Restores R w) (k : Stacks) (t : σ) :
    LeavesAsFound R k t (w.outcome ⟨k, t, []⟩) := by
  obtain ⟨hframe, hstore, hunderflow, parts, hparts, hlevel⟩ := h ⟨k, t, []⟩
  rw [List.nil_append] at hparts
  rw [← hparts] at hlevel
  refine ⟨hframe, hstore, hunderflow, fun x hx hentry n hn => ?_, fun x hx y hy => ?_⟩
  · exact UInt32.le_trans (Entry.inversions_le (hlevel x hx).enter hentry)
      ((hlevel x hx).le_of_counts hn)
  · obtain ⟨around, hy⟩ := (hlevel x hx).holds hy
    exact ⟨hy.finish_eq, fun n hn => hy.le_of_counts hn⟩

/-- Nothing but the store is touched. -/
theorem of_store {w : Stacked σ α} (h : ∀ s, (w.outcome s).2.frame = s.frame ∧
    (w.outcome s).2.visited = s.visited ∧ R s.store (w.outcome s).2.store ∧
      (w.outcome s).1 ≠ .error .underflow) : Restores R w := by
  intro s
  obtain ⟨hframe, hvisited, hstore, hhalt⟩ := h s
  exact ⟨hframe, hstore, hhalt, [], by rw [hvisited, List.append_nil], List.forall_mem_nil _⟩

theorem ite {c : Prop} [Decidable c] {w v : Stacked σ α} (hw : Restores R w)
    (hv : Restores R v) : Restores R (if c then w else v) := by
  split
  · exact hw
  · exact hv

theorem onStore {w : σ → Except QueryError α × σ} (h : ∀ t, R t (w t).2) :
    Restores R (Stacked.onStore w) := by
  refine of_store fun s => ⟨rfl, rfl, h s.store, ?_⟩
  show (w s.store).1.mapError Halt.failed ≠ _
  cases (w s.store).1 <;> exact fun h => by cases h

variable [IsPreorder σ R]

theorem pure (a : α) : Restores R (Pure.pure a : Stacked σ α) :=
  of_store fun s => ⟨rfl, rfl, refl s.store, fun h => by cases h⟩

theorem fail (err : QueryError) : Restores R (Stacked.fail err : Stacked σ α) :=
  of_store fun s => ⟨rfl, rfl, refl s.store, fun h => by cases h⟩

theorem lift (x : Except QueryError α) : Restores R (liftM x : Stacked σ α) := by
  cases x with
  | ok a => exact pure a
  | error err => exact fail err

theorem frame : Restores R (Stacked.frame : Stacked σ Stacks) :=
  of_store fun s => ⟨rfl, rfl, refl s.store, fun h => by cases h⟩

theorem bind {w : Stacked σ α} {f : α → Stacked σ β} (hw : Restores R w)
    (hf : ∀ a, Restores R (f a)) : Restores R (w >>= f) := by
  intro s
  rw [outcome_bind]
  have h := hw s
  rcases hrun : w.outcome s with ⟨halt | a, s'⟩ <;> rw [hrun] at h
  · refine ⟨h.frame, h.store, fun heq => h.noUnderflow ?_, h.visited⟩
    exact congrArg Except.error (Except.error.inj heq)
  · -- The second walk starts from the stacks of the first one.
    have hframe : s'.frame = s.frame := h.frame
    have h' := hf a s'
    obtain ⟨parts, hparts, hlevel⟩ := h.visited
    obtain ⟨parts', hparts', hlevel'⟩ := h'.visited
    refine ⟨h'.frame.trans hframe, IsTrans.trans _ _ _ h.store h'.store, h'.noUnderflow,
      parts ++ parts', ?_, List.forall_mem_append.2 ⟨hlevel, fun x hx => ?_⟩⟩
    · rw [hparts', hparts, List.append_assoc]
    · rw [← hframe]
      exact hlevel' x hx

/-- A part restores the stacks around it, even where it is not entered. -/
theorem entering {entry : Entry} {w : Stacked σ α} (hw : Restores R w) :
    Restores R (Stacked.entering entry w) := by
  intro s
  rw [outcome_entering]
  cases henter : entry.enter s.frame with
  | none =>
    exact ⟨rfl, refl s.store, (fun h => by cases h), [], (List.append_nil _).symm,
      List.forall_mem_nil _⟩
  | some inside =>
    have h := hw { s with frame := inside, visited := [] }
    obtain ⟨parts, hparts, hlevel⟩ := h.visited
    dsimp only
    rw [leaving_eq henter h.frame, hparts]
    exact ⟨rfl, h.store, h.noUnderflow, _, rfl, List.forall_mem_singleton.2 (.mk henter hlevel)⟩

theorem withLambda {params : List Param} {w : Stacked σ α} (hw : Restores R w) :
    Restores R (Stacked.withLambda params w) := by
  unfold Stacked.withLambda
  split
  · exact entering (entering hw)
  · exact fail _

end Restores

/-! ### Walks that are handed a scope -/

/-- An outcome over the stacks `k` is that of a computation without stacks. -/
structure Matches (k : Stacks) (r : Except QueryError (α × σ)) (out : Except Halt α × State σ) :
    Prop where
  frame : out.2.frame = k
  result : out.1 = (r.map (·.1)).mapError .failed
  store : ∀ a t, r = .ok (a, t) → out.2.store = t

/-- Over all stacks with the scope `s` and the counter `n`, the walk does what the computation `v`
does without stacks. -/
def Mirrors (s : Scope) (n : UInt32) (w : Stacked σ α) (v : StateT σ (Except QueryError) α) :
    Prop :=
  ∀ (k : Stacks) (t : σ) (visited : List Visited), k.scope = s → k.inversions = n →
    Matches k (v.run t) (w.outcome ⟨k, t, visited⟩)

namespace Mirrors

variable {s : Scope} {n : UInt32} {w : Stacked σ α} {v : StateT σ (Except QueryError) α}

theorem pure (a : α) : Mirrors s n (Pure.pure a : Stacked σ α) (Pure.pure a) := by
  refine fun k t visited _ _ => ⟨rfl, rfl, fun b t' h => ?_⟩
  obtain ⟨-, rfl⟩ := Prod.mk.inj (Except.ok.inj h)
  rfl

theorem fail (err : QueryError) : Mirrors s n (Stacked.fail err : Stacked σ α) (throw err) :=
  fun _ _ _ _ _ => ⟨rfl, rfl, fun _ _ h => by cases h⟩

theorem lift (x : Except QueryError α) : Mirrors s n (liftM x : Stacked σ α) (liftM x) := by
  cases x with
  | ok a => exact pure a
  | error err => exact fail err

theorem bind {f : α → Stacked σ β} {g : α → StateT σ (Except QueryError) β}
    (hw : Mirrors s n w v) (hf : ∀ a, Mirrors s n (f a) (g a)) :
    Mirrors s n (w >>= f) (v >>= g) := by
  intro k t visited hs hn
  have h := hw k t visited hs hn
  rw [outcome_bind, StateT.run_bind]
  rcases hrun : w.outcome ⟨k, t, visited⟩ with ⟨result, s'⟩
  rw [hrun] at h
  obtain ⟨hframe, hresult, hstore⟩ := h
  cases hv : v.run t with
  | error err =>
    rw [hv] at hresult
    obtain rfl : result = .error (.failed err) := hresult
    exact ⟨hframe, rfl, fun _ _ h => by cases h⟩
  | ok x =>
    rw [hv] at hresult
    obtain rfl : result = .ok x.1 := hresult
    -- The second walk starts from the stacks and the store that the first one leaves.
    obtain ⟨frame', store', visited'⟩ := s'
    obtain rfl : store' = x.2 := hstore _ _ hv
    obtain rfl : frame' = k := hframe
    exact hf x.1 frame' x.2 visited' hs hn

/-- A computation that needs the scope alone is handed what a walk looks up. -/
theorem frame_bind {f : Stacks → Stacked σ α}
    (h : ∀ k : Stacks, k.scope = s → Mirrors s n (f k) v) : Mirrors s n (frame >>= f) v :=
  fun k t visited hs hn => h k hs k t visited hs hn

theorem ite {p : Prop} [Decidable p] {w' : Stacked σ α} {v' : StateT σ (Except QueryError) α}
    (hw : p → Mirrors s n w v) (hw' : ¬ p → Mirrors s n w' v') :
    Mirrors s n (if p then w else w') (if p then v else v') := by
  split
  · exact hw ‹_›
  · exact hw' ‹_›

/-- A part of a walk is handed the scope within it. -/
theorem entering_of {entry : Entry} {s' : Scope} {n' : UInt32}
    (henter : ∀ k : Stacks, k.scope = s → k.inversions = n →
      ∃ inside, entry.enter k = some inside ∧ inside.scope = s' ∧ inside.inversions = n')
    (h : Mirrors s' n' w v) : Mirrors s n (entering entry w) v := by
  intro k t visited hs hn
  obtain ⟨inside, hinside, hs', hn'⟩ := henter k hs hn
  have hpart := h inside t [] hs' hn'
  rw [outcome_entering]
  dsimp only
  rw [hinside]
  dsimp only
  rw [leaving_eq hinside hpart.frame]
  exact ⟨rfl, hpart.result, hpart.store⟩

theorem member {name : String} (h : Mirrors (s.withMember name) n w v) :
    Mirrors s n (entering (.member name) w) v :=
  entering_of (fun _ hs hn => ⟨_, rfl, hs ▸ rfl, hn⟩) h

theorem operator {op : Sql.Operator} (h : Mirrors s n w v) :
    Mirrors s n (entering (.operator op) w) v :=
  entering_of (fun _ hs hn => ⟨_, rfl, hs, hn⟩) h

theorem neutral (h : Mirrors s.neutral 0 w v) : Mirrors s n (entering .neutral w) v :=
  entering_of (fun _ hs _ => ⟨_, rfl, hs ▸ rfl, rfl⟩) h

theorem isolated (h : Mirrors s.isolated n w v) : Mirrors s n (entering .isolated w) v :=
  entering_of (fun _ hs hn => ⟨_, rfl, hs ▸ rfl, hn⟩) h

/-- One more negation changes the parity of the counter, unless it overflows. -/
theorem inverted (hroom : n.toNat + 1 < UInt32.size) (h : Mirrors s.inverted (n + 1) w v) :
    Mirrors s n (entering .inverted w) v := by
  refine entering_of (fun k hs hn => ?_) h
  subst hs hn
  refine ⟨_, if_pos hroom, ?_, rfl⟩
  have hparity : ((k.inversions + 1) % 2 == 1) = !(k.inversions % 2 == 1) := by
    rw [Bool.eq_not, Ne, Bool.eq_iff_iff, beq_iff_eq, beq_iff_eq, ← UInt32.toNat_inj,
      ← UInt32.toNat_inj, UInt32.toNat_mod, UInt32.toNat_mod, Entry.toNat_add_one hroom]
    show ¬ ((k.inversions.toNat + 1) % 2 = 1 ↔ k.inversions.toNat % 2 = 1)
    omega
  rw [Stacks.scope, Stacks.isInverted, hparity]
  rfl

theorem withLambda {params : List Param} {v : Scope → StateT σ (Except QueryError) α}
    (h : ∀ s', Mirrors s' n w (v s')) :
    Mirrors s n (Stacked.withLambda params w) (liftM (s.enter params) >>= v) := by
  match params with
  | [p] =>
    have hbody : Mirrors { s with binders := (p.name, p.model) :: s.binders } n
        (entering (.operator .lambda) w) (v _) := operator (h _)
    show Mirrors s n (entering (.binder p) (entering (.operator .lambda) w)) (v _)
    exact entering_of (fun _ hs hn => ⟨_, rfl, hs ▸ rfl, hn⟩) hbody
  | [] | _ :: _ :: _ => exact fail _

end Mirrors

end Stacked

end PredicateSql
