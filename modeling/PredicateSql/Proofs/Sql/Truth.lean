import PredicateSql.Value

/-!
# Three-valued logic

The truth value of a condition in SQL, where `NULL` stands for "unknown".

* `Truth`: yes, no or unknown, with the strong Kleene connectives `Truth.not`, `Truth.and` and
  `Truth.or`. The laws of De Morgan (`not_and`, `not_or`) and double negation (`not_not`) hold.
* `Truth.toValue`, `Truth.ofValue`: truth values as values of the database, and back. A value that
  is no condition (`Value.IsCondition`) counts as unknown.
-/

namespace PredicateSql

/-- A truth value of SQL. -/
inductive Truth where
  | yes
  | no
  | unknown
  deriving Repr, DecidableEq, Inhabited

namespace Truth

variable {x y : Truth}

/-! ### Connectives -/

/-- The negation of what is unknown is unknown. -/
def not : Truth → Truth
  | yes => no
  | no => yes
  | unknown => unknown

/-- One `no` decides a conjunction. -/
def and : Truth → Truth → Truth
  | no, _ => no
  | _, no => no
  | yes, yes => yes
  | _, _ => unknown

/-- One `yes` decides a disjunction. -/
def or : Truth → Truth → Truth
  | yes, _ => yes
  | _, yes => yes
  | no, no => no
  | _, _ => unknown

/-- A truth value, or its negation. -/
def negateIf (negated : Bool) (x : Truth) : Truth :=
  if negated then x.not else x

/-- What is known. -/
def ofBool (b : Bool) : Truth :=
  if b then yes else no

@[simp] theorem not_not : x.not.not = x := by
  cases x <;> rfl

theorem not_and : (x.and y).not = x.not.or y.not := by
  cases x <;> cases y <;> rfl

theorem not_or : (x.or y).not = x.not.and y.not := by
  cases x <;> cases y <;> rfl

theorem and_comm : x.and y = y.and x := by
  cases x <;> cases y <;> rfl

theorem or_comm : x.or y = y.or x := by
  cases x <;> cases y <;> rfl

theorem or_assoc {z : Truth} : (x.or y).or z = x.or (y.or z) := by
  cases x <;> cases y <;> cases z <;> rfl

@[simp] theorem and_yes : x.and yes = x := by
  cases x <;> rfl

@[simp] theorem yes_and : yes.and x = x := by
  cases x <;> rfl

@[simp] theorem no_or : no.or x = x := by
  cases x <;> rfl

@[simp] theorem or_no : x.or no = x := by
  cases x <;> rfl

@[simp] theorem and_self : x.and x = x := by
  cases x <;> rfl

@[simp] theorem or_self : x.or x = x := by
  cases x <;> rfl

@[simp] theorem not_ofBool (b : Bool) : (ofBool b).not = ofBool (!b) := by
  cases b <;> rfl

theorem negateIf_not {negated : Bool} : x.not.negateIf negated = x.negateIf (!negated) := by
  cases negated
  · rfl
  · exact not_not

/-! ### Truth values as values -/

/-- A truth value as the database stores it. -/
def toValue : Truth → Value
  | yes => .bool true
  | no => .bool false
  | unknown => .null

/-- The truth value that a value stands for. -/
def ofValue : Value → Truth
  | .bool b => ofBool b
  | _ => unknown

@[simp] theorem ofValue_toValue : ofValue x.toValue = x := by
  cases x <;> rfl

theorem toValue_inj (h : x.toValue = y.toValue) : x = y := by
  rw [← ofValue_toValue (x := x), h, ofValue_toValue]

theorem isNull_toValue_not : x.not.toValue.isNull = x.toValue.isNull := by
  cases x <;> rfl

theorem toValue_ne_int {i : Int64} : x.toValue ≠ .int i := by
  cases x <;> simp [toValue]

end Truth

/-- The value is a truth value. -/
def Value.IsCondition (v : Value) : Prop :=
  ∃ x : Truth, v = x.toValue

end PredicateSql
