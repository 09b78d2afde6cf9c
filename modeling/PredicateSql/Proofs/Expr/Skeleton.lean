import PredicateSql.Expr.Printer

/-!
# What a printed tree keeps

* `Expr.skeleton`: a tree without what its text does not show: casts, the types of constants and of
  the items of arrays, and the types that members and methods of values are declared on.
* `Expr.printedDepth`: how deep expressions nest in the text of a tree.
* `Expr.isSigned`: the text starts with an operator before an operand.
-/

namespace PredicateSql.Expr

mutual

/-- A tree without casts, without the types of constants and of the items of arrays, and without the
types that members and methods of values are declared on. -/
def skeleton : Expr → Expr
  | .binary op left right => .binary op left.skeleton right.skeleton
  | .unary .convert operand => operand.skeleton
  | .unary op operand => .unary op operand.skeleton
  | .member owner _ name => .member owner.skeleton "" name
  | .staticMember declaringType name => .staticMember declaringType name
  | .constant _ value => .constant .unknown value
  | .param name model => .param name model
  | .call target method args => .call target.skeleton ⟨.other "", method.name⟩ (skeletons args)
  | .staticCall method args => .staticCall method (skeletons args)
  | .new type args => .new type (skeletons args)
  | .array _ items => .array .unknown (skeletons items)
  | .conditional test ifTrue ifFalse => .conditional test.skeleton ifTrue.skeleton ifFalse.skeleton
  | .lambda params body => .lambda params body.skeleton

/-- The skeletons of some trees. -/
def skeletons : List Expr → List Expr
  | [] => []
  | e :: rest => e.skeleton :: skeletons rest

end

mutual

/-- The number of levels at which expressions nest in the text of a tree. Operators before an
operand, parentheses, brackets and arguments nest; what follows an operand does not. -/
def printedDepth : Expr → Nat
  | .binary .index left right => max left.printedDepth (1 + right.printedDepth)
  | .binary _ left right => 1 + max left.printedDepth (1 + right.printedDepth)
  | .unary .convert operand => operand.printedDepth
  | .unary _ operand => 1 + operand.printedDepth
  | .member owner _ _ => owner.printedDepth
  | .call target _ args => max target.printedDepth (1 + printedDepthOfAll args)
  | .staticCall _ args | .new _ args | .array _ args => 1 + printedDepthOfAll args
  | .conditional test ifTrue ifFalse =>
    1 + max test.printedDepth (1 + max ifTrue.printedDepth ifFalse.printedDepth)
  | .lambda _ body => body.printedDepth
  | .staticMember .. | .constant .. | .param .. => 1

/-- The greatest number of levels of some trees. -/
def printedDepthOfAll : List Expr → Nat
  | [] => 0
  | e :: rest => max e.printedDepth (printedDepthOfAll rest)

end

/-- The text of the tree starts with `!` or with a minus sign of its own. -/
def isSigned : Expr → Bool
  | .unary .convert operand => operand.isSigned
  | .unary .. => true
  | _ => false

theorem printedDepth_pos : ∀ e : Expr, 0 < e.printedDepth
  | .binary op left right => by cases op <;> simp only [printedDepth] <;> omega
  | .unary .convert operand => printedDepth_pos operand
  | .unary .not _ | .unary .negate _ => by simp only [printedDepth]; omega
  | .member owner _ _ => printedDepth_pos owner
  | .call .. | .staticCall .. | .new .. | .array .. | .conditional .. => by
    simp only [printedDepth]
    omega
  | .lambda _ body => printedDepth_pos body
  | .staticMember .. | .constant .. | .param .. => Nat.one_pos

/-- The index of a sequence stands in brackets; any other operator stands in parentheses. -/
theorem printedDepth_binary {op : BinaryOp} (hop : op ≠ .index) (left right : Expr) :
    (binary op left right).printedDepth = 1 + max left.printedDepth (1 + right.printedDepth) := by
  cases op with
  | index => exact absurd rfl hop
  | _ => rfl

end PredicateSql.Expr
