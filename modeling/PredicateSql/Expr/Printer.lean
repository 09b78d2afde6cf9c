import PredicateSql.Expr.Basic

/-!
# Expressions as text

`Expr.render` writes a tree as source text, with parentheses around every binary operator and
every conditional. Casts leave no trace.
-/

namespace PredicateSql.Expr

mutual

/-- The source text of a tree. -/
def render : Expr → String
  | .binary .index left right => left.render ++ "[" ++ right.render ++ "]"
  | .binary op left right => "(" ++ left.render ++ " " ++ op.symbol ++ " " ++ right.render ++ ")"
  | .unary .not operand => "!" ++ operand.render
  | .unary .negate operand => "-" ++ operand.render
  | .unary .convert operand => operand.render
  | .member owner _ name => owner.render ++ "." ++ name
  | .staticMember declaringType name => declaringType ++ "." ++ name
  | .constant _ value => value.render
  | .param name _ => name
  | .call target method args =>
    target.render ++ "." ++ method.name ++ "(" ++ ", ".intercalate (renderEach args) ++ ")"
  | .staticCall method args => method.render ++ "(" ++ ", ".intercalate (renderEach args) ++ ")"
  | .new type args => "new " ++ type ++ "(" ++ ", ".intercalate (renderEach args) ++ ")"
  | .array _ items => "new[] \x7b " ++ ", ".intercalate (renderEach items) ++ " \x7d"
  | .conditional test ifTrue ifFalse =>
    "(" ++ test.render ++ " ? " ++ ifTrue.render ++ " : " ++ ifFalse.render ++ ")"
  | .lambda [p] body => p.name ++ " => " ++ body.render
  | .lambda params body =>
    "(" ++ ", ".intercalate (params.map (·.name)) ++ ") => " ++ body.render

/-- The source texts of some trees. -/
def renderEach : List Expr → List String
  | [] => []
  | e :: rest => e.render :: renderEach rest

end

end PredicateSql.Expr
