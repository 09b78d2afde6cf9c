import PredicateSql.Catalog.Model
import PredicateSql.Expr.Basic

/-!
# Types of source expressions

* `Expr.sourceType`: the type of an expression, as far as a catalog tells it. It decides what the
  members and the methods of the expression are declared on.
* `ValueType.declaringName`: the name of a type in that role.
* `isScalarName`: the type names that casts may name.
-/

namespace PredicateSql

/-- The name under which a type declares members and methods. -/
def ValueType.declaringName : ValueType → String
  | .string => "string"
  | .list _ => "List"
  | .date | .dateTime => "DateTime"
  | .model name => name
  | type => type.render

/-- The type names that are keywords, and those of dates. -/
def isScalarName (name : String) : Bool :=
  ["bool", "byte", "short", "int", "long", "float", "double", "decimal", "string", "char",
    "object", "DateTime", "DateOnly"].contains name

namespace Expr

/-- The type of a member of a value. -/
def memberType (catalog : Catalog) (owner : ValueType) (name : String) : ValueType :=
  match owner with
  | .model model =>
    match (catalog.find? model).bind (·.find? name) with
    | some p => p.type
    | none => .unknown
  | _ =>
    let isCountable :=
      match owner with
      | .string | .list _ | .bytes => true
      | _ => false
    if isCountable && (name == "Length" || name == "Count") then .int
    else if name = "Value" then owner
    else if name = "HasValue" then .bool
    else .unknown

/-- The type of a static member. -/
def staticMemberType (type name : String) : ValueType :=
  if type = "DateTime" then .dateTime
  else if (type = "string" ∨ type = "String") ∧ name = "Empty" then .string
  else if name = "MaxValue" ∨ name = "MinValue" then .int
  else .unknown

/-- The type of a call, where the name of the method tells it. The date that days are added to has
the type of the result. -/
def callType (method : Method) (targetType : ValueType) : ValueType :=
  match method.known? with
  | some .toUpper | some .toLower | some .trim | some .substring | some .toString => .string
  | some .contains | some .startsWith | some .endsWith | some .equals => .bool
  | some .addDays => targetType
  | _ => .unknown

/-- The type of an expression, as far as a catalog tells it. -/
def sourceType (catalog : Catalog) : Expr → ValueType
  | .constant type _ => type
  | .param _ model => .model model
  | .member owner _ name => memberType catalog (owner.sourceType catalog) name
  | .staticMember type name => staticMemberType type name
  | .call target method _ => callType method (target.sourceType catalog)
  | .staticCall method _ => callType method .unknown
  | .new type _ => .ofName type
  | .array elementType _ => .list elementType
  | .unary .not _ => .bool
  | .unary _ operand => operand.sourceType catalog
  | .binary op left right =>
    if op.isLogical || op.isComparison then .bool
    else if op = .index then ((left.sourceType catalog).element?).getD .unknown
    else
      let leftType := left.sourceType catalog
      if leftType = .string ∨ right.sourceType catalog = .string then .string else leftType
  | .conditional _ ifTrue _ => ifTrue.sourceType catalog
  | .lambda .. => .unknown

end Expr

end PredicateSql
