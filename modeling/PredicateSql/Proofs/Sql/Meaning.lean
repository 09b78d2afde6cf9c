import PredicateSql.Proofs.Sql.Truth
import PredicateSql.Evaluation.Arithmetic
import PredicateSql.Sql.Query

/-!
# The meaning of terms

What a database computes for a term on one row.

* `Database`: the parts of SQL that differ between databases and that nothing here depends on: the
  order of values, arithmetic, patterns and functions. Only the little that every database agrees
  on is asked of them.
* `Term.eval`: the value of a term, given the values of the columns. A connective treats a value
  that is no condition as `NULL`.
* `Term.truth`: the truth value of a term in the place of a condition.
* `Term.TypedOn`: on a row, no connective meets a value that is no condition.
-/

namespace PredicateSql.Sql

/-! ### Databases -/

/-- What a database computes of values. -/
structure Database where
  /-- The order of two values that are not `NULL`, if they can be compared. -/
  compare : Value → Value → Option Ordering
  /-- Whole numbers are compared as numbers. -/
  compare_int (a b : Int64) : compare (.int a) (.int b) = some (Ord.compare a.toInt b.toInt)
  arithmetic : Operator → Value → Value → Value
  negative : Value → Value
  concat : List Value → Value
  /-- Whether a text matches a pattern, which may hold escaped characters. -/
  like (escaped : Bool) (pattern text : Value) : Truth
  call (function : String) (args : List Value) : Value
  /-- A length is a whole number. -/
  call_length (v : Value) : v.isNull = false → ∃ n, call "LENGTH" [v] = .int n

/-- The values of the columns of the tables, by the alias of the table and the name of the
column. -/
abbrev Row := String → String → Value

/-- What a comparison asks of the order of its operands. -/
def Operator.ordering? : Operator → Option (Ordering → Bool)
  | .equals => some fun o => o == .eq
  | .notEquals => some fun o => !(o == .eq)
  | .less => some fun o => o == .lt
  | .greaterOrEqual => some fun o => !(o == .lt)
  | .greater => some fun o => o == .gt
  | .lessOrEqual => some fun o => !(o == .gt)
  | _ => none

/-- A test against `NULL` is never unknown. -/
def Operator.nullTest (op : Operator) (v : Value) : Truth :=
  match op with
  | .equalsNull => .ofBool v.isNull
  | .notEqualsNull => .ofBool (!v.isNull)
  | _ => .unknown

namespace Database

/-- A database that can compare whole numbers and truth values, and nothing else. -/
instance : Inhabited Database where
  default := {
    compare
      | .int a, .int b => some (Ord.compare a.toInt b.toInt)
      | .bool a, .bool b => some (Ord.compare a b)
      | _, _ => none
    compare_int := fun _ _ => rfl
    arithmetic := fun _ _ _ => .null
    negative := fun _ => .null
    concat := fun _ => .null
    like := fun _ _ _ => .unknown
    call := fun _ args =>
      match args with
      | [.null] => .null
      | _ => .int 0
    call_length := fun v hv => ⟨0, by cases v <;> first | rfl | cases hv⟩ }

/-- A comparison. Next to `NULL`, and between values that cannot be compared, it is unknown. -/
def compareBy (db : Database) (test : Ordering → Bool) (a b : Value) : Truth :=
  if a.isNull || b.isNull then .unknown
  else
    match db.compare a b with
    | some order => .ofBool (test order)
    | none => .unknown

/-- The value of an operator between two values. -/
def binary (db : Database) (op : Operator) (a b : Value) : Value :=
  match op with
  | .and => ((Truth.ofValue a).and (.ofValue b)).toValue
  | .or => ((Truth.ofValue a).or (.ofValue b)).toValue
  | op =>
    match op.ordering? with
    | some test => (db.compareBy test a b).toValue
    | none => db.arithmetic op a b

/-- An item is in a list if it is equal to one of the elements. -/
def isIn (db : Database) (item : Value) : List Value → Truth
  | [] => .no
  | v :: rest => (db.compareBy (· == .eq) item v).or (db.isIn item rest)

theorem compareBy_not (db : Database) (test : Ordering → Bool) (a b : Value) :
    db.compareBy (fun o => !test o) a b = (db.compareBy test a b).not := by
  unfold compareBy
  split
  -- What is not compared is unknown, and so is its negation.
  · rfl
  · cases db.compare a b with
    | none => rfl
    | some order => exact (Truth.not_ofBool _).symm

theorem binary_of_ordering {db : Database} {op : Operator} {test : Ordering → Bool} {a b : Value}
    (h : op.ordering? = some test) : db.binary op a b = (db.compareBy test a b).toValue := by
  cases op <;> simp_all [binary, Operator.ordering?]

end Database

/-- Complementary operators give complementary answers. -/
theorem Operator.ordering?_invert {op : Operator} {test : Ordering → Bool}
    (h : op.ordering? = some test) : op.invert.ordering? = some fun o => !test o := by
  cases op <;> simp only [ordering?, Option.some.injEq, reduceCtorEq] at h <;> subst h <;>
    simp [invert, ordering?]

theorem Operator.nullTest_invert {op : Operator} (h : op = .equalsNull ∨ op = .notEqualsNull)
    (v : Value) : op.invert.nullTest v = (op.nullTest v).not := by
  rcases h with rfl | rfl <;> simp [invert, nullTest]

/-! ### Terms -/

namespace Term

mutual

/-- The value of a term on a row. -/
def eval (db : Database) (row : Row) : Term → Value
  | .literal value => value
  | .column table name => row table name
  | .binary left op right _ => db.binary op (left.eval db row) (right.eval db row)
  | .negative operand => db.negative (operand.eval db row)
  | .not operand => (Truth.ofValue (operand.eval db row)).not.toValue
  | .isNull operand op => (op.nullTest (operand.eval db row)).toValue
  | .inList item list negated =>
    ((db.isIn (item.eval db row) (evalAll db row list)).negateIf negated).toValue
  | .like item pattern negated escaped =>
    ((db.like escaped (pattern.eval db row) (item.eval db row)).negateIf negated).toValue
  | .concat parts => db.concat (evalAll db row parts)
  | .conditional test ifTrue ifFalse =>
    if Truth.ofValue (test.eval db row) = .yes then ifTrue.eval db row else ifFalse.eval db row
  | .call function args => db.call function (evalAll db row args)

/-- The values of some terms on a row. -/
def evalAll (db : Database) (row : Row) : List Term → List Value
  | [] => []
  | t :: rest => t.eval db row :: evalAll db row rest

end

/-- The truth value of a term on a row. -/
def truth (db : Database) (row : Row) (t : Term) : Truth :=
  .ofValue (t.eval db row)

mutual

/-- No connective meets a value that is no condition when the term is evaluated on a row. Of a
conditional, only the branch that is taken matters. -/
def TypedOn (db : Database) (row : Row) : Term → Prop
  | .literal _ | .column .. => True
  | .binary left op right _ =>
    left.TypedOn db row ∧ right.TypedOn db row ∧
      (op = .and ∨ op = .or →
        (left.eval db row).IsCondition ∧ (right.eval db row).IsCondition)
  | .negative operand | .isNull operand _ => operand.TypedOn db row
  | .not operand => operand.TypedOn db row ∧ (operand.eval db row).IsCondition
  | .inList item list _ => item.TypedOn db row ∧ AllTypedOn db row list
  | .like item pattern _ _ => item.TypedOn db row ∧ pattern.TypedOn db row
  | .concat parts => AllTypedOn db row parts
  | .conditional test ifTrue ifFalse =>
    test.TypedOn db row ∧
      if Truth.ofValue (test.eval db row) = .yes then ifTrue.TypedOn db row
      else ifFalse.TypedOn db row
  | .call _ args => AllTypedOn db row args

/-- No connective within some terms meets a value that is no condition. -/
def AllTypedOn (db : Database) (row : Row) : List Term → Prop
  | [] => True
  | t :: rest => t.TypedOn db row ∧ AllTypedOn db row rest

end

/-! ### Parentheses -/

variable {db : Database} {row : Row} {t : Term}

@[simp] theorem eval_unparenthesized : t.unparenthesized.eval db row = t.eval db row := by
  cases t <;> simp only [unparenthesized, eval]

@[simp] theorem truth_unparenthesized : t.unparenthesized.truth db row = t.truth db row := by
  rw [truth, truth, eval_unparenthesized]

@[simp] theorem typedOn_unparenthesized : t.unparenthesized.TypedOn db row ↔ t.TypedOn db row := by
  cases t <;> simp only [unparenthesized, TypedOn]

end Term

end PredicateSql.Sql
