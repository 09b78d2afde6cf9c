import Mathlib
import PredicateSql.Evaluation.Arithmetic

/-!
# Equality of values

* `Value.beq_comm`, `Value.equals_comm`: equality is symmetric. It is not reflexive, because a float
  may be no number.
* `Value.exists_mem_toList`: what is no list and is equal to a value is equal to an element of it.
-/

namespace PredicateSql.Value

mutual

/-- Equality of values of one type is symmetric. -/
theorem beq_comm : ∀ a b : Value, a.beq b = b.beq a
  | .list a, b => by
    cases b with
    | list b => rw [beq, beq, beqList_comm a b]
    | _ => rfl
  | .record m a, b => by
    cases b with
    | record n b => rw [beq, beq, BEq.comm (a := m), beqFields_comm a b]
    | _ => rfl
  | .null, b | .bool _, b | .int _, b | .float _, b | .string _, b | .date _, b | .dateTime _, b
  | .bytes _, b => by
    cases b <;> first | rfl | exact BEq.comm

/-- So is equality of the items of two lists. -/
theorem beqList_comm : ∀ as bs : List Value, beqList as bs = beqList bs as
  | [], [] => rfl
  | [], _ :: _ => rfl
  | _ :: _, [] => rfl
  | a :: as, b :: bs => by rw [beqList, beqList, beq_comm a b, beqList_comm as bs]

/-- So is equality of the fields of two records. -/
theorem beqFields_comm : ∀ as bs : List (String × Value), beqFields as bs = beqFields bs as
  | [], [] => rfl
  | [], _ :: _ => rfl
  | _ :: _, [] => rfl
  | (m, a) :: as, (n, b) :: bs => by
    rw [beqFields, beqFields, BEq.comm (a := m), beq_comm a b, beqFields_comm as bs]

end

/-- Equality of two values is symmetric. -/
theorem equals_comm (a b : Value) : a.equals b = b.equals a := by
  cases a with
  | int i =>
    cases b with
    | float x => exact BEq.comm
    | _ => exact beq_comm _ _
  | float x =>
    cases b with
    | int i => exact BEq.comm
    | _ => exact beq_comm _ _
  | _ => cases b <;> exact beq_comm _ _

/-- What is equal to a value is equal to an element of it, unless it is a list itself. -/
theorem exists_mem_toList {a b : Value} (ha : ∀ items, a ≠ .list items) (h : a.equals b = true) :
    ∃ v ∈ b.toList, a.equals v = true := by
  cases b with
  | list items =>
    cases a with
    | list own => exact absurd rfl (ha own)
    | _ => cases h
  | _ => exact ⟨_, List.mem_singleton_self _, h⟩

end PredicateSql.Value
