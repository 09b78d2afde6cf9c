import PredicateSql.Proofs.Query.Analysis
import PredicateSql.Proofs.Query.Outcome
import PredicateSql.Proofs.Sql.Meaning

/-!
# Related terms

Two terms are related by some outcomes (`Term.Related`) if their values on every row are one of
them. The lemmas `Term.related_and` and so on relate the terms of one operator each, and
`scalarMembers_agree` relates terms that members are taken of.
-/

namespace PredicateSql

open Sql (Term Operator Database Row)

/-! ### Single operators -/

namespace Sql.Term

/-- The values of two terms are an outcome on every row on which both are well typed. -/
def Related (A : Outcomes) (a b : Term) : Prop :=
  ∀ db row, a.TypedOn db row → b.TypedOn db row → A (a.eval db row) (b.eval db row)

variable {A B : Outcomes} {a b a' b' : Term}

theorem Related.mono (h : Related A a b) (hAB : ∀ v w, A v w → B v w) : Related B a b :=
  fun db row ha hb => hAB _ _ (h db row ha hb)

theorem Related.swap (h : Related A a b) : Related A.swap b a :=
  fun db row hb ha => h db row ha hb

theorem related_refl (a : Term) : Related Alike a a :=
  fun _ _ _ _ => .inl rfl

/-- A `NOT` around the second term. -/
theorem related_not (h : Related A a b) : Related A.wrapped a (.not b) := by
  rintro db row ha ⟨hb, x, hx⟩
  have hab := h db row ha hb
  rw [hx] at hab
  exact ⟨x, hab, by rw [eval, hx, Truth.ofValue_toValue]⟩

/-- A `NOT` around a term that no negation changes. -/
theorem related_not_of_alike (h : Related Alike a b) : Related Opposite a (.not b) :=
  (related_not h).mono fun _ _ => Outcomes.wrapped_alike.1

/-- The law of De Morgan for conjunctions. -/
theorem related_and (h : Related A a b) (h' : Related B a' b') :
    Related (A.and B) (operation a .and a') (operation b .or b') := by
  rintro db row ⟨ha, ha', hleft⟩ ⟨hb, hb', hright⟩
  obtain ⟨⟨x, hx⟩, y, hy⟩ := hleft (.inl rfl)
  obtain ⟨⟨x', hx'⟩, y', hy'⟩ := hright (.inr rfl)
  have hab := h db row ha hb
  have hab' := h' db row ha' hb'
  rw [hx, hx'] at hab
  rw [hy, hy'] at hab'
  -- Well typed operands are truth values, so the connectives take them as they are.
  refine ⟨x, x', y, y', hab, hab', ?_, ?_⟩
  · simp only [operation, eval, Database.binary, hx, hy, Truth.ofValue_toValue]
  · simp only [operation, eval, Database.binary, hx', hy', Truth.ofValue_toValue]

/-- The law of De Morgan for disjunctions. -/
theorem related_or (h : Related A a b) (h' : Related B a' b') :
    Related (A.or B) (operation a .or a') (operation b .and b') :=
  (related_and h.swap h'.swap).swap

/-- The complement of a comparison. -/
theorem related_comparison {op : Operator} {test : Ordering → Bool}
    (hop : op.ordering? = some test) :
    Related Opposite (operation a op b) (operation a op.invert b) := by
  intro db row _ _
  refine ⟨db.compareBy test (a.eval db row) (b.eval db row), ?_, ?_⟩
  · rw [operation, eval, Database.binary_of_ordering hop]
  · rw [operation, eval, Database.binary_of_ordering (Operator.ordering?_invert hop),
      Database.compareBy_not]

theorem related_isNull {op : Operator} (hop : op = .equalsNull ∨ op = .notEqualsNull) :
    Related Opposite (.isNull a op) (.isNull a op.invert) := by
  intro db row _ _
  refine ⟨op.nullTest (a.eval db row), ?_, ?_⟩
  · rw [eval]
  · rw [eval, Operator.nullTest_invert hop]

theorem related_inList {list : List Term} :
    Related Opposite (.inList a list false) (.inList a list true) := by
  intro db row _ _
  exact ⟨db.isIn (a.eval db row) (evalAll db row list), by rw [eval]; rfl, by rw [eval]; rfl⟩

theorem related_like {escaped : Bool} :
    Related Opposite (.like a b false escaped) (.like a b true escaped) := by
  intro db row _ _
  exact ⟨db.like escaped (b.eval db row) (a.eval db row), by rw [eval]; rfl, by rw [eval]; rfl⟩

/-- On every row both conditionals take the branch that their common test chooses. -/
theorem related_conditional {test : Term} (h : Related A a b) (h' : Related B a' b') :
    Related (A.union B) (.conditional test a a') (.conditional test b b') := by
  rintro db row ⟨-, ha⟩ ⟨-, hb⟩
  rw [eval, eval]
  split
  · next htest =>
    rw [if_pos htest] at ha hb
    exact .inl (h db row ha hb)
  · next htest =>
    rw [if_neg htest] at ha hb
    exact .inr (h' db row ha hb)

/-- Nothing is in an empty collection. -/
theorem related_empty :
    Related Opposite (.operation (.literal (.int 1)) .equals (.literal (.int 0)))
      (.operation (.literal (.int 1)) .equals (.literal (.int 1))) := by
  intro db row _ _
  refine ⟨.no, ?_, ?_⟩ <;>
    simp [operation, eval, Database.binary, Operator.ordering?,
      Database.compareBy, Value.isNull, db.compare_int] <;> rfl

end Sql.Term

/-! ### Members of related terms -/

section Members

variable {a b m n : Term} {type : ValueType} {members : List String} {db : Database} {row : Row}

theorem alike_nullTest {op : Operator} (h : SameNull (a.eval db row) (b.eval db row)) :
    Alike ((Term.isNull a op).eval db row) ((Term.isNull b op).eval db row) := by
  have hnull : (a.eval db row).isNull = (b.eval db row).isNull := h
  refine .inl ?_
  simp only [Term.eval, Operator.nullTest, hnull]

theorem alike_length (h : SameNull (a.eval db row) (b.eval db row)) :
    Alike ((Term.call "LENGTH" [a]).eval db row) ((Term.call "LENGTH" [b]).eval db row) := by
  have hnull : (a.eval db row).isNull = (b.eval db row).isNull := h
  simp only [Term.eval, Term.evalAll]
  by_cases hn : (b.eval db row).isNull = true
  · -- Both operands are `NULL`, so both calls are the same call.
    have hbnull : b.eval db row = .null := by
      cases hv : b.eval db row <;> simp_all [Value.isNull]
    have hanull : a.eval db row = .null := by
      cases hv : a.eval db row <;> simp_all [Value.isNull]
    exact .inl (by rw [hanull, hbnull])
  · rw [Bool.not_eq_true] at hn
    obtain ⟨m, hm⟩ := db.call_length _ (hnull.trans hn)
    obtain ⟨n, hn⟩ := db.call_length _ hn
    exact .inr ⟨m, n, hm, hn⟩

/-- Members of a term are well typed only if the term is. -/
theorem typedOn_of_scalarMembers (hm : scalarMembers a type members = .ok m) :
    m.TypedOn db row → a.TypedOn db row :=
  scalarMembers_induction (P := fun x => x.TypedOn db row → a.TypedOn db row) hm id
    (fun _ hx ht => hx ht.1) fun _ hx ht => hx ht

/-- The member `Value` is the term itself. -/
theorem scalarMembers_value (hmembers : members.all (· = "Value") = true)
    (hm : scalarMembers a type members = .ok m) : a = m := by
  induction members generalizing a type with
  | nil => exact Except.ok.inj hm
  | cons member rest ih =>
    simp only [List.all_cons, Bool.and_eq_true, decide_eq_true_eq] at hmembers
    obtain ⟨rfl, hrest⟩ := hmembers
    rw [scalarMembers, if_neg (by simp), if_pos rfl] at hm
    exact ih hrest hm

/-- Members of terms that are alike are alike. -/
theorem scalarMembers_alike (h : Alike (a.eval db row) (b.eval db row))
    (hm : scalarMembers a type members = .ok m) (hn : scalarMembers b type members = .ok n) :
    Alike (m.eval db row) (n.eval db row) := by
  induction members generalizing a b type with
  | nil =>
    obtain rfl := Except.ok.inj hm
    obtain rfl := Except.ok.inj hn
    exact h
  | cons member rest ih =>
    rw [scalarMembers] at hm hn
    split at hm
    · next hlength =>
      rw [if_pos hlength] at hn
      exact ih (alike_length h.sameNull) hm hn
    · next hlength =>
      rw [if_neg hlength] at hn
      split at hm
      · next hvalue =>
        rw [if_pos hvalue] at hn
        exact ih h hm hn
      · next hvalue =>
        rw [if_neg hvalue] at hn
        split at hm
        · next hasValue =>
          rw [if_pos hasValue] at hn
          exact ih (alike_nullTest h.sameNull) hm hn
        · cases hm

/-- The first member other than `Value` sees only what is `NULL`; from there on, terms are
alike. -/
theorem scalarMembers_sameNull (hmembers : members.all (· = "Value") = false)
    (h : SameNull (a.eval db row) (b.eval db row))
    (hm : scalarMembers a type members = .ok m) (hn : scalarMembers b type members = .ok n) :
    Alike (m.eval db row) (n.eval db row) := by
  induction members with
  | nil => cases hmembers
  | cons member rest ih =>
    rw [scalarMembers] at hm hn
    split at hm
    · next hlength =>
      rw [if_pos hlength] at hn
      exact scalarMembers_alike (alike_length h) hm hn
    · next hlength =>
      rw [if_neg hlength] at hn
      split at hm
      · next hvalue =>
        rw [if_pos hvalue] at hn
        have hrest : rest.all (· = "Value") = false := by simpa [hvalue] using hmembers
        exact ih hrest hm hn
      · next hvalue =>
        rw [if_neg hvalue] at hn
        split at hm
        · next hasValue =>
          rw [if_pos hasValue] at hn
          exact scalarMembers_alike (alike_nullTest h) hm hn
        · cases hm

/-- Members of related terms. -/
theorem scalarMembers_agree {A : Outcomes} (h : Term.Related A a b)
    (hm : scalarMembers a type members = .ok m) (hn : scalarMembers b type members = .ok n) :
    Term.Related (A.ofMembers members) m n := by
  intro db row htm htn
  -- Members of well typed terms only are well typed.
  have hab := h db row (typedOn_of_scalarMembers hm htm) (typedOn_of_scalarMembers hn htn)
  unfold Outcomes.ofMembers
  split
  · next hall =>
    obtain rfl := scalarMembers_value hall hm
    obtain rfl := scalarMembers_value hall hn
    exact hab
  · next hall =>
    rw [Bool.not_eq_true] at hall
    exact ⟨_, _, hab, fun hnull => scalarMembers_sameNull hall hnull hm hn⟩

end Members

end PredicateSql
