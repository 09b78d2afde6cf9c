import Mathlib.Tactic.Tauto
import PredicateSql.Proofs.Sql.Truth
import PredicateSql.Query.Analysis

/-!
# Outcomes of a negation

The values that a condition may have under an even number of negations and under an odd one.

* `Expr.outcomes`: the pairs of values that a condition may have, whatever the truth values of the
  comparisons, calls and columns that it is made of. `Expr.chainOutcomes` are the pairs of a chain
  of members of an expression.
* `Reaction`: almost always the one value is the `NOT` of the other (`flipped`). Both are the same
  (`kept`) where a negation is accounted for twice.
* `Expr.reaction`: the reaction of a condition, which only its shape decides.
* `Expr.reaction_describes`: the reaction of a condition says which outcomes it has. One that is
  `mixed` has an outcome with `NULL` on one side only.
-/

namespace PredicateSql

/-! ### Pairs of values -/

/-- Two truth values of which one is the negation of the other. -/
def Opposite (v w : Value) : Prop :=
  ∃ x : Truth, v = x.toValue ∧ w = x.not.toValue

/-- Two truth values that are the same. -/
def Same (v w : Value) : Prop :=
  ∃ x : Truth, v = x.toValue ∧ w = x.toValue

/-- Two values that no condition tells apart. -/
def Alike (v w : Value) : Prop :=
  v = w ∨ ∃ m n : Int64, v = .int m ∧ w = .int n

/-- Two values of which both are `NULL` or neither is. -/
def SameNull (v w : Value) : Prop :=
  v.isNull = w.isNull

theorem Opposite.symm {v w : Value} : Opposite v w → Opposite w v := by
  rintro ⟨x, rfl, rfl⟩
  exact ⟨x.not, rfl, by rw [Truth.not_not]⟩

theorem Same.symm {v w : Value} : Same v w → Same w v := by
  rintro ⟨x, rfl, rfl⟩
  exact ⟨x, rfl, rfl⟩

theorem Opposite.sameNull {v w : Value} : Opposite v w → SameNull v w := by
  rintro ⟨x, rfl, rfl⟩
  exact Truth.isNull_toValue_not.symm

theorem Same.sameNull {v w : Value} : Same v w → SameNull v w := by
  rintro ⟨x, rfl, rfl⟩
  rfl

theorem Alike.sameNull {v w : Value} : Alike v w → SameNull v w := by
  rintro (rfl | ⟨m, n, rfl, rfl⟩) <;> rfl

/-- Next to a truth value, only the same truth value is alike. -/
theorem Alike.eq_toValue {v : Value} {x : Truth} (h : Alike v x.toValue) : v = x.toValue := by
  rcases h with rfl | ⟨m, n, -, hn⟩
  · rfl
  · exact absurd hn Truth.toValue_ne_int

/-! ### Sets of outcomes -/

/-- The values that something may have under an even and under an odd number of negations. -/
abbrev Outcomes := Value → Value → Prop

namespace Outcomes

variable {A B : Outcomes} {v w : Value}

/-- The outcomes with one more negation. -/
def swap (A : Outcomes) : Outcomes :=
  fun v w => A w v

/-- The outcomes of what is the one thing or the other. -/
def union (A B : Outcomes) : Outcomes :=
  fun v w => A v w ∨ B v w

/-- The outcomes of a conjunction, which is a disjunction under an odd number of negations. -/
def and (A B : Outcomes) : Outcomes :=
  fun v w => ∃ x x' y y' : Truth, A x.toValue x'.toValue ∧ B y.toValue y'.toValue ∧
    v = (x.and y).toValue ∧ w = (x'.or y').toValue

/-- The outcomes of a disjunction, which is a conjunction under an odd number of negations. -/
def or (A B : Outcomes) : Outcomes :=
  (A.swap.and B.swap).swap

/-- The outcomes of what a `NOT` is written around under an odd number of negations. -/
def wrapped (A : Outcomes) : Outcomes :=
  fun v w => ∃ x : Truth, A v x.toValue ∧ w = x.not.toValue

/-- The outcomes of the members of something. The member `Value` is the value itself; the others
only see whether it is `NULL`. -/
def ofMembers (members : List String) (A : Outcomes) : Outcomes :=
  if members.all (· = "Value") then A
  else fun v w => ∃ v' w', A v' w' ∧ (SameNull v' w' → Alike v w)

theorem and_comm : A.and B v w → B.and A v w := by
  rintro ⟨x, x', y, y', hA, hB, rfl, rfl⟩
  exact ⟨y, y', x, x', hB, hA, by rw [Truth.and_comm], by rw [Truth.or_comm]⟩

/-- Members of what no negation changes. -/
theorem alike_of_ofMembers {members : List String} (h : ofMembers members Alike v w) :
    Alike v w := by
  unfold ofMembers at h
  split at h
  · exact h
  · obtain ⟨v', w', hvw, halike⟩ := h
    exact halike hvw.sameNull

/-- A `NOT` around a value that no negation changes. -/
theorem wrapped_alike : wrapped Alike v w ↔ Opposite v w := by
  constructor
  · rintro ⟨x, hv, rfl⟩
    exact ⟨x, hv.eq_toValue, rfl⟩
  · rintro ⟨x, rfl, rfl⟩
    exact ⟨x, .inl rfl, rfl⟩

/-- A `NOT` around a value that is negated already. -/
theorem wrapped_opposite : wrapped Opposite v w ↔ Same v w := by
  constructor
  · rintro ⟨x, ⟨y, rfl, hx⟩, rfl⟩
    obtain rfl := Truth.toValue_inj hx
    exact ⟨y, rfl, by rw [Truth.not_not]⟩
  · rintro ⟨x, rfl, rfl⟩
    exact ⟨x.not, ⟨x, rfl, rfl⟩, by rw [Truth.not_not]⟩

theorem wrapped_union :
    wrapped (fun v w => A v w ∨ B v w) v w ↔ A.wrapped v w ∨ B.wrapped v w := by
  simp only [wrapped, or_and_right, exists_or]

theorem wrapped_same : wrapped Same v w ↔ Opposite v w := by
  constructor
  · rintro ⟨x, ⟨y, rfl, hx⟩, rfl⟩
    exact ⟨x, hx.symm, rfl⟩
  · rintro ⟨x, rfl, rfl⟩
    exact ⟨x, ⟨x, rfl, rfl⟩, rfl⟩

end Outcomes

/-! ### Outcomes of expressions -/

namespace Expr

mutual

/-- The values that a condition may have, whatever the truth values of its parts that are no
connectives. -/
def outcomes : Expr → Outcomes
  | .binary op left right =>
    match op with
    | .and => left.outcomes.and right.outcomes
    | .or => left.outcomes.or right.outcomes
    | _ => Opposite
  | .unary .not operand => operand.outcomes.swap
  | .unary .convert operand => operand.outcomes
  | .conditional _ ifTrue ifFalse => ifTrue.outcomes.union ifFalse.outcomes
  | .lambda _ body => body.outcomes
  | .member owner _ name => (owner.chainOutcomes [name]).wrapped
  | _ => Opposite

/-- The values that some members of an expression may have. Negations reach the branches of a
conditional whose members are taken, and nothing else. -/
def chainOutcomes (members : List String) : Expr → Outcomes
  | .member owner _ name => owner.chainOutcomes (name :: members)
  | .unary .convert operand => operand.chainOutcomes members
  | .conditional test ifTrue ifFalse =>
    match (Expr.conditional test ifTrue ifFalse).isClosed with
    | .ok true => Alike
    | _ => (ifTrue.outcomes.union ifFalse.outcomes).ofMembers members
  | _ => Alike

end

end Expr

/-! ### Reactions to a negation -/

/-- How the value of a condition under an odd number of negations relates to its value under an
even number. -/
inductive Reaction where
  /-- One is the negation of the other. -/
  | flipped
  /-- Both are the same. -/
  | kept
  /-- One is the negation of the other, or both are the same. -/
  | either
  /-- Only one of the two may be `NULL`. -/
  | mixed
  deriving Repr, DecidableEq, Inhabited

namespace Reaction

/-- The reaction of what a `NOT` is written around as well. -/
def flip : Reaction → Reaction
  | flipped => kept
  | kept => flipped
  | either => either
  | mixed => mixed

/-- The reaction of what is the one thing or the other. -/
def join (r r' : Reaction) : Reaction :=
  if r = r' then r else if r = mixed ∨ r' = mixed then mixed else either

/-- The reaction of two conditions with a connective between them. -/
def both (r r' : Reaction) : Reaction :=
  if r = flipped ∧ r' = flipped then flipped else mixed

/-- The reaction of members, with a `NOT` around them. The member `Value` is the value itself; the
others only see whether it is `NULL`. -/
def ofMembers (members : List String) (r : Reaction) : Reaction :=
  if members.all (· = "Value") then r.flip else if r = mixed then mixed else flipped

end Reaction

namespace Expr

mutual

/-- How a condition reacts to a negation around it. -/
def reaction : Expr → Reaction
  | .binary op left right =>
    if op.isLogical then left.reaction.both right.reaction else .flipped
  | .unary .not operand | .unary .convert operand => operand.reaction
  | .conditional _ ifTrue ifFalse => ifTrue.reaction.join ifFalse.reaction
  | .lambda _ body => body.reaction
  | .member owner _ name => owner.chainReaction [name]
  | _ => .flipped

/-- How a condition reacts that is a chain of members of an expression. -/
def chainReaction (members : List String) : Expr → Reaction
  | .member owner _ name => owner.chainReaction (name :: members)
  | .unary .convert operand => operand.chainReaction members
  | .conditional test ifTrue ifFalse =>
    match (Expr.conditional test ifTrue ifFalse).isClosed with
    | .ok true => .flipped
    | _ => (ifTrue.reaction.join ifFalse.reaction).ofMembers members
  | _ => .flipped

end

end Expr

/-! ### What a reaction says -/

namespace Outcomes

/-- All opposite truth values are outcomes, or all pairs of the same truth value are. -/
def IsFull (A : Outcomes) : Prop :=
  (∀ v w, Opposite v w → A v w) ∨ ∀ v w, Same v w → A v w

/-- A truth value may be `NULL` on one side only. -/
def IsMixed (A : Outcomes) : Prop :=
  ∃ x y : Truth, A x.toValue y.toValue ∧ ¬ SameNull x.toValue y.toValue

end Outcomes

/-- A reaction says which outcomes there are. -/
def Reaction.Describes : Reaction → Outcomes → Prop
  | flipped, A => ∀ v w, A v w ↔ Opposite v w
  | kept, A => ∀ v w, A v w ↔ Same v w
  | either, A => ∀ v w, A v w ↔ Opposite v w ∨ Same v w
  | mixed, A => A.IsFull ∧ A.IsMixed

namespace Outcomes

variable {A B : Outcomes}

theorem IsFull.nonempty (h : A.IsFull) : ∃ v w, A v w :=
  h.elim (fun h => ⟨_, _, h _ _ ⟨.unknown, rfl, rfl⟩⟩) fun h => ⟨_, _, h _ _ ⟨.unknown, rfl, rfl⟩⟩

theorem IsFull.swap (h : A.IsFull) : A.swap.IsFull :=
  h.imp (fun h v w hvw => h w v hvw.symm) fun h v w hvw => h w v hvw.symm

theorem IsFull.union (h : A.IsFull) : (A.union B).IsFull :=
  h.imp (fun h v w hvw => .inl (h v w hvw)) fun h v w hvw => .inl (h v w hvw)

theorem IsFull.wrapped (h : A.IsFull) : A.wrapped.IsFull := by
  rcases h with h | h
  · right
    rintro _ _ ⟨x, rfl, rfl⟩
    exact ⟨x.not, h _ _ ⟨x, rfl, rfl⟩, by rw [Truth.not_not]⟩
  · left
    rintro _ _ ⟨x, rfl, rfl⟩
    exact ⟨x, h _ _ ⟨x, rfl, rfl⟩, rfl⟩

/-- There are values of the two operands that leave those of the other one alone. -/
theorem IsFull.and (hA : A.IsFull) (hB : B.IsFull) : (A.and B).IsFull := by
  -- Only two operands that are always negated give what is always negated.
  rcases hA with hA | hA <;> rcases hB with hB | hB
  · left
    rintro _ _ ⟨x, rfl, rfl⟩
    exact ⟨x, x.not, x, x.not, hA _ _ ⟨x, rfl, rfl⟩, hB _ _ ⟨x, rfl, rfl⟩, by simp, by simp⟩
  · right
    rintro _ _ ⟨x, rfl, rfl⟩
    exact ⟨.yes, .no, x, x, hA _ _ ⟨.yes, rfl, rfl⟩, hB _ _ ⟨x, rfl, rfl⟩, by simp, by simp⟩
  · right
    rintro _ _ ⟨x, rfl, rfl⟩
    exact ⟨x, x, .yes, .no, hA _ _ ⟨x, rfl, rfl⟩, hB _ _ ⟨.yes, rfl, rfl⟩, by simp, by simp⟩
  · right
    rintro _ _ ⟨x, rfl, rfl⟩
    exact ⟨x, x, x, x, hA _ _ ⟨x, rfl, rfl⟩, hB _ _ ⟨x, rfl, rfl⟩, by simp, by simp⟩

theorem IsMixed.swap (h : A.IsMixed) : A.swap.IsMixed := by
  obtain ⟨x, y, hA, hnull⟩ := h
  exact ⟨y, x, hA, fun hsame => hnull hsame.symm⟩

theorem IsMixed.wrapped (h : A.IsMixed) : A.wrapped.IsMixed := by
  obtain ⟨x, y, hA, hnull⟩ := h
  refine ⟨x, y.not, ⟨y, hA, rfl⟩, fun hsame => hnull ?_⟩
  rwa [SameNull, Truth.isNull_toValue_not] at hsame

/-- An operand that is mixed stays so next to a suitable value of the other operand. -/
theorem IsMixed.and (hA : A.IsMixed) (hB : B.IsFull) : (A.and B).IsMixed := by
  obtain ⟨x, y, hxy, hnull⟩ := hA
  rcases hB with hB | hB
  · refine ⟨x.and .yes, y.or .no, ⟨x, y, .yes, .no, hxy, hB _ _ ⟨.yes, rfl, rfl⟩, rfl, rfl⟩, ?_⟩
    rwa [Truth.and_yes, Truth.or_no]
  · by_cases hx : x = .unknown
    · subst hx
      refine ⟨_, _, ⟨.unknown, y, .yes, .yes, hxy, hB _ _ ⟨.yes, rfl, rfl⟩, rfl, rfl⟩, ?_⟩
      cases y <;> simp [SameNull, Truth.and, Truth.or, Truth.toValue, Value.isNull]
    · -- Here the second value is the one that is unknown.
      refine ⟨_, _, ⟨x, y, .no, .no, hxy, hB _ _ ⟨.no, rfl, rfl⟩, rfl, rfl⟩, ?_⟩
      cases x <;> cases y <;>
        simp_all [SameNull, Truth.and, Truth.or, Truth.toValue, Value.isNull]

/-- An operand that a negation leaves alone can be unknown where the other one decides. -/
theorem isMixed_and_of_same (hA : ∀ v w, Same v w → A v w) (hB : B.IsFull) :
    (A.and B).IsMixed := by
  rcases hB with hB | hB
  -- The known operand decides on one side only; on the other it leaves what is unknown.
  · refine ⟨_, _, ⟨.no, .no, .unknown, .unknown, hA _ _ ⟨.no, rfl, rfl⟩,
      hB _ _ ⟨.unknown, rfl, rfl⟩, rfl, rfl⟩, ?_⟩
    simp [SameNull, Truth.and, Truth.or, Truth.toValue, Value.isNull]
  · refine ⟨_, _, ⟨.unknown, .unknown, .yes, .yes, hA _ _ ⟨.unknown, rfl, rfl⟩,
      hB _ _ ⟨.yes, rfl, rfl⟩, rfl, rfl⟩, ?_⟩
    simp [SameNull, Truth.and, Truth.or, Truth.toValue, Value.isNull]

theorem and_opposite {v w : Value} : and Opposite Opposite v w ↔ Opposite v w := by
  constructor
  · rintro ⟨x, x', y, y', ⟨a, hx, hx'⟩, ⟨b, hy, hy'⟩, rfl, rfl⟩
    obtain rfl := Truth.toValue_inj hx
    obtain rfl := Truth.toValue_inj hx'
    obtain rfl := Truth.toValue_inj hy
    obtain rfl := Truth.toValue_inj hy'
    exact ⟨x.and y, rfl, by rw [Truth.not_and]⟩
  · rintro ⟨x, rfl, rfl⟩
    exact ⟨x, x.not, x, x.not, ⟨x, rfl, rfl⟩, ⟨x, rfl, rfl⟩, by simp, by simp⟩

theorem or_opposite {v w : Value} : or Opposite Opposite v w ↔ Opposite v w := by
  have hswap : swap Opposite = Opposite :=
    funext fun v => funext fun w => propext ⟨Opposite.symm, Opposite.symm⟩
  rw [or, hswap, swap, and_opposite]
  exact ⟨Opposite.symm, Opposite.symm⟩

end Outcomes

namespace Reaction

variable {A B : Outcomes} {r r' : Reaction}

theorem Describes.isFull (h : r.Describes A) : A.IsFull := by
  cases r with
  | flipped => exact .inl fun v w => (h v w).2
  | kept => exact .inr fun v w => (h v w).2
  | either => exact .inl fun v w hvw => (h v w).2 (.inl hvw)
  | mixed => exact h.1

theorem Describes.sameNull (h : r.Describes A) (hr : r ≠ mixed) {v w : Value} (hvw : A v w) :
    SameNull v w := by
  cases r with
  | flipped => exact ((h v w).1 hvw).sameNull
  | kept => exact ((h v w).1 hvw).sameNull
  | either => exact ((h v w).1 hvw).elim Opposite.sameNull Same.sameNull
  | mixed => exact (hr rfl).elim

/-- The reaction is `flipped` just where a negation is always accounted for once. -/
theorem Describes.eq_flipped_iff (h : r.Describes A) :
    r = flipped ↔ ∀ v w, A v w → Opposite v w := by
  have hyes : ¬ Opposite (.bool true) (.bool true) := by
    rintro ⟨x, hx, hy⟩
    cases x <;> simp [Truth.toValue, Truth.not] at hx hy
  have hsame : Same (.bool true) (.bool true) := ⟨.yes, rfl, rfl⟩
  constructor
  · rintro rfl v w
    exact (h v w).1
  · intro hall
    cases r with
    | flipped => rfl
    | kept => exact absurd (hall _ _ ((h _ _).2 hsame)) hyes
    | either => exact absurd (hall _ _ ((h _ _).2 (.inr hsame))) hyes
    | mixed =>
      obtain ⟨-, x, y, hxy, hnull⟩ := h
      exact absurd (hall _ _ hxy).sameNull hnull

/-- The reaction is `kept` just where a negation is always accounted for twice. -/
theorem Describes.eq_kept_iff (h : r.Describes A) : r = kept ↔ ∀ v w, A v w → Same v w := by
  have hno : ¬ Same (.bool true) (.bool false) := by
    rintro ⟨x, hx, hy⟩
    cases x <;> simp [Truth.toValue] at hx hy
  have hopposite : Opposite (.bool true) (.bool false) := ⟨.yes, rfl, rfl⟩
  constructor
  · rintro rfl v w
    exact (h v w).1
  · intro hall
    cases r with
    | kept => rfl
    | flipped => exact absurd (hall _ _ ((h _ _).2 hopposite)) hno
    | either => exact absurd (hall _ _ ((h _ _).2 (.inl hopposite))) hno
    | mixed =>
      obtain ⟨-, x, y, hxy, hnull⟩ := h
      exact absurd (hall _ _ hxy).sameNull hnull

theorem Describes.swap (h : r.Describes A) : r.Describes A.swap := by
  cases r with
  | flipped => exact fun v w => (h w v).trans ⟨Opposite.symm, Opposite.symm⟩
  | kept => exact fun v w => (h w v).trans ⟨Same.symm, Same.symm⟩
  | either => exact fun v w => (h w v).trans (or_congr ⟨.symm, .symm⟩ ⟨.symm, .symm⟩)
  | mixed => exact ⟨h.1.swap, h.2.swap⟩

theorem Describes.union (hA : r.Describes A) (hB : r'.Describes B) :
    (r.join r').Describes (A.union B) := by
  by_cases hmixed : r = mixed ∨ r' = mixed
  · have hjoin : r.join r' = mixed := by
      rcases hmixed with rfl | rfl
      · cases r' <;> rfl
      · cases r <;> rfl
    rw [hjoin]
    refine ⟨hA.isFull.union, ?_⟩
    rcases hmixed with rfl | rfl
    · obtain ⟨x, y, hxy, hnull⟩ := hA.2
      exact ⟨x, y, .inl hxy, hnull⟩
    · obtain ⟨x, y, hxy, hnull⟩ := hB.2
      exact ⟨x, y, .inr hxy, hnull⟩
  · obtain ⟨hr, hr'⟩ := not_or.1 hmixed
    cases r <;> cases r' <;> first | exact absurd rfl hr | exact absurd rfl hr' | intro v w
    all_goals exact (or_congr (hA v w) (hB v w)).trans (by tauto)

theorem Describes.and (hA : r.Describes A) (hB : r'.Describes B) :
    (r.both r').Describes (A.and B) := by
  have hfull := hA.isFull.and hB.isFull
  have hcomm (h : (B.and A).IsMixed) : (A.and B).IsMixed := by
    obtain ⟨x, y, hxy, hnull⟩ := h
    exact ⟨x, y, Outcomes.and_comm hxy, hnull⟩
  cases r with
  | mixed => exact ⟨hfull, hA.2.and hB.isFull⟩
  | kept => exact ⟨hfull, Outcomes.isMixed_and_of_same (fun v w => (hA v w).2) hB.isFull⟩
  | either =>
    have hsame (v w : Value) (h : Same v w) : A v w := (hA v w).2 (.inr h)
    exact ⟨hfull, Outcomes.isMixed_and_of_same hsame hB.isFull⟩
  | flipped =>
    cases r' with
    | mixed => exact ⟨hfull, hcomm (hB.2.and hA.isFull)⟩
    | kept =>
      exact ⟨hfull, hcomm (Outcomes.isMixed_and_of_same (fun v w => (hB v w).2) hA.isFull)⟩
    | either =>
      have hsame (v w : Value) (h : Same v w) : B v w := (hB v w).2 (.inr h)
      exact ⟨hfull, hcomm (Outcomes.isMixed_and_of_same hsame hA.isFull)⟩
    | flipped =>
      obtain rfl : A = Opposite := funext fun v => funext fun w => propext (hA v w)
      obtain rfl : B = Opposite := funext fun v => funext fun w => propext (hB v w)
      exact fun v w => Outcomes.and_opposite

theorem Describes.or (hA : r.Describes A) (hB : r'.Describes B) :
    (r.both r').Describes (A.or B) :=
  (hA.swap.and hB.swap).swap

theorem Describes.wrapped (h : r.Describes A) : r.flip.Describes A.wrapped := by
  have hwrapped {R : Outcomes} (hR : ∀ v w, A v w ↔ R v w) (v w : Value) :
      A.wrapped v w ↔ R.wrapped v w :=
    exists_congr fun x => and_congr_left' (hR v x.toValue)
  cases r with
  | flipped => exact fun v w => (hwrapped h v w).trans Outcomes.wrapped_opposite
  | kept => exact fun v w => (hwrapped h v w).trans Outcomes.wrapped_same
  | either =>
    intro v w
    rw [hwrapped h, Outcomes.wrapped_union, Outcomes.wrapped_opposite, Outcomes.wrapped_same]
    exact or_comm
  | mixed => exact ⟨h.1.wrapped, h.2.wrapped⟩

/-- Members other than `Value` see no negation, unless `NULL` may be on one side only. -/
theorem Describes.ofMembers {members : List String} (h : r.Describes A) :
    (r.ofMembers members).Describes (A.ofMembers members).wrapped := by
  unfold Reaction.ofMembers Outcomes.ofMembers
  split
  · exact h.wrapped
  · split
    · next hr =>
      subst hr
      obtain ⟨hfull, x, y, hxy, hnull⟩ := h
      -- With `NULL` on one side only, nothing is known of the members.
      have hall (v w : Value) : ∃ v' w', A v' w' ∧ (SameNull v' w' → Alike v w) :=
        ⟨x.toValue, y.toValue, hxy, fun hsame => absurd hsame hnull⟩
      refine ⟨Outcomes.IsFull.wrapped (.inl fun v w _ => hall v w), .yes, .unknown,
        ⟨.unknown, hall _ _, rfl⟩, ?_⟩
      simp [SameNull, Truth.toValue, Value.isNull]
    · next hr =>
      -- All outcomes have `NULL` on both sides or on none.
      obtain ⟨v', w', hvw⟩ := h.isFull.nonempty
      have hsame := h.sameNull hr hvw
      refine fun v w => Iff.trans ?_ Outcomes.wrapped_alike
      refine exists_congr fun x => and_congr_left' ⟨?_, fun hv => ⟨v', w', hvw, fun _ => hv⟩⟩
      rintro ⟨v'', w'', hvw'', halike⟩
      exact halike (h.sameNull hr hvw'')

end Reaction

namespace Expr

mutual

/-- The reaction of a condition says which outcomes it has. -/
theorem reaction_describes : ∀ e : Expr, e.reaction.Describes e.outcomes
  | .binary op left right => by
    have hleft := reaction_describes left
    have hright := reaction_describes right
    cases op with
    | and => exact hleft.and hright
    | or => exact hleft.or hright
    | _ => exact fun _ _ => Iff.rfl
  | .unary .not operand => (reaction_describes operand).swap
  | .unary .convert operand => reaction_describes operand
  | .conditional _ ifTrue ifFalse =>
    (reaction_describes ifTrue).union (reaction_describes ifFalse)
  | .lambda _ body => reaction_describes body
  | .member owner _ name => chainReaction_describes owner [name]
  | .unary .negate _ | .constant .. | .staticMember .. | .param .. | .new .. | .array ..
  | .call .. | .staticCall .. => fun _ _ => Iff.rfl

theorem chainReaction_describes : ∀ (e : Expr) (members : List String),
    (e.chainReaction members).Describes (e.chainOutcomes members).wrapped
  | .member owner _ name, members => chainReaction_describes owner (name :: members)
  | .unary .convert operand, members => chainReaction_describes operand members
  | .conditional test ifTrue ifFalse, members => by
    have hbranches := (reaction_describes ifTrue).union (reaction_describes ifFalse)
    rw [chainReaction, chainOutcomes]
    split
    · exact fun _ _ => Outcomes.wrapped_alike
    · exact hbranches.ofMembers
  | .unary .not _, _ | .unary .negate _, _ | .constant .., _ | .staticMember .., _ | .param .., _
  | .new .., _ | .array .., _ | .call .., _ | .staticCall .., _ | .binary .., _ | .lambda .., _ =>
    fun _ _ => Outcomes.wrapped_alike

end

end Expr

end PredicateSql
