import Mathlib.Logic.ExistsUnique
import PredicateSql.Expr.Basic

/-!
# Grouping by precedence

Of all the ways to put operators between operands into a tree, precedence picks one.

* `BinaryOp.precedence`: how tightly an operator binds.
* `Expr.inOrder`: the operands of a tree from the left, with the operators between them.
* `Expr.Grouped`: tighter operators are deeper in the tree, and equal ones group to the left.
* `Expr.attach`: a tree with one more operator and operand at its right end. `Expr.group` attaches
  one after the other.
* `Expr.Grouped.group_eq`: a grouped tree is told by its operands and operators.
  `Expr.existsUnique_grouped`: they have exactly one such tree.
-/

namespace PredicateSql

/-- How tightly an operator binds. An index, which is written behind its operand, binds most
tightly. -/
def BinaryOp.precedence : BinaryOp → Nat
  | .index => 7
  | .multiply | .divide | .modulo => 6
  | .add | .subtract => 5
  | .less | .lessOrEqual | .greater | .greaterOrEqual => 4
  | .equal | .notEqual => 3
  | .and => 2
  | .or => 1

namespace Expr

variable {e left right tree first : Expr} {op o : BinaryOp} {n : Nat}
  {rest rest' : List (BinaryOp × Expr)}

/-! ### Operators between operands -/

/-- The operator at the root of a tree that stands between two operands. An index stands between
none. -/
def infixOp? : Expr → Option BinaryOp
  | .binary op _ _ => if op = .index then none else some op
  | _ => none

/-- The operands of a tree from the left: the first one, and each other one with the operator before
it. -/
def inOrder : Expr → Expr × List (BinaryOp × Expr)
  | .binary op left right =>
    if op = .index then (.binary op left right, [])
    else (left.inOrder.1, left.inOrder.2 ++ (op, right.inOrder.1) :: right.inOrder.2)
  | e => (e, [])

@[simp]
theorem infixOp?_binary (hop : op ≠ .index) : (binary op left right).infixOp? = some op :=
  if_neg hop

@[simp]
theorem inOrder_binary (hop : op ≠ .index) : (binary op left right).inOrder =
    (left.inOrder.1, left.inOrder.2 ++ (op, right.inOrder.1) :: right.inOrder.2) := by
  rw [inOrder, if_neg hop]

theorem inOrder_of_infixOp?_eq_none (h : e.infixOp? = none) : e.inOrder = (e, []) := by
  cases e with
  | binary op left right =>
    by_cases hop : op = .index
    · rw [inOrder, if_pos hop]
    · rw [infixOp?_binary hop] at h
      cases h
  | _ => rfl

/-! ### Trees that are grouped by precedence -/

/-- The operators of a tree are grouped by precedence. To the left of an operator stand operators
that bind no less tightly, to the right of it only tighter ones. -/
inductive Grouped : Expr → Prop
  | operand {e : Expr} (h : e.infixOp? = none) : Grouped e
  | binary {op : BinaryOp} {left right : Expr} (hop : op ≠ .index) (hl : Grouped left)
    (hr : Grouped right) (hleft : ∀ o ∈ left.infixOp?, op.precedence ≤ o.precedence)
    (hright : ∀ o ∈ right.infixOp?, op.precedence < o.precedence) :
    Grouped (.binary op left right)

theorem grouped_binary_iff (hop : op ≠ .index) : (binary op left right).Grouped ↔
    left.Grouped ∧ right.Grouped ∧ (∀ o ∈ left.infixOp?, op.precedence ≤ o.precedence) ∧
      ∀ o ∈ right.infixOp?, op.precedence < o.precedence := by
  constructor
  · intro h
    cases h with
    | operand h => simp [hop] at h
    | binary _ hl hr hleft hright => exact ⟨hl, hr, hleft, hright⟩
  · exact fun ⟨hl, hr, hleft, hright⟩ => .binary hop hl hr hleft hright

/-- No operator in a grouped tree binds less tightly than the one at its root. -/
theorem Grouped.le_of_mem_inOrder (h : e.Grouped) (hroot : ∀ o ∈ e.infixOp?, n ≤ o.precedence) :
    ∀ item ∈ e.inOrder.2, n ≤ item.1.precedence := by
  induction h with
  | operand h =>
    rw [inOrder_of_infixOp?_eq_none h]
    nofun
  | @binary op left right hop hl hr hleft hright ihl ihr =>
    rw [infixOp?_binary hop] at hroot
    have hle : n ≤ op.precedence := hroot op rfl
    have hl := ihl fun o ho => Nat.le_trans hle (hleft o ho)
    have hr := ihr fun o ho => Nat.le_trans hle (Nat.le_of_lt (hright o ho))
    rw [inOrder_binary hop]
    simp only [List.mem_append, List.mem_cons]
    rintro item (hitem | rfl | hitem)
    · exact hl item hitem
    · exact hle
    · exact hr item hitem

/-! ### One more operand -/

/-- A tree with an operator and an operand at its right end. They go past the operators that bind
less tightly. -/
def attach : Expr → BinaryOp → Expr → Expr
  | .binary o left right, op, e =>
    if o ≠ .index ∧ o.precedence < op.precedence then .binary o left (right.attach op e)
    else .binary op (.binary o left right) e
  | tree, op, e => .binary op tree e

theorem attach_of_lt (ho : o ≠ .index) (h : o.precedence < op.precedence) :
    (binary o left right).attach op e = .binary o left (right.attach op e) := by
  rw [attach, if_pos ⟨ho, h⟩]

theorem attach_of_le (h : ∀ o ∈ tree.infixOp?, op.precedence ≤ o.precedence) :
    tree.attach op e = .binary op tree e := by
  cases tree with
  | binary o left right =>
    refine if_neg fun ⟨ho, hlt⟩ => ?_
    have hle := h o (infixOp?_binary ho)
    omega
  | _ => rfl

theorem infixOp?_attach (hop : op ≠ .index) (ho : o ∈ (tree.attach op e).infixOp?) :
    o = op ∨ o ∈ tree.infixOp? := by
  cases tree with
  | binary root left right =>
    rw [attach] at ho
    split at ho
    · exact .inr ho
    · exact .inl (by simpa [hop, eq_comm] using ho)
  | _ => exact .inl (by simpa [attach, hop, eq_comm] using ho)

theorem inOrder_attach (hop : op ≠ .index) (he : e.infixOp? = none) :
    (tree.attach op e).inOrder = (tree.inOrder.1, tree.inOrder.2 ++ [(op, e)]) := by
  fun_induction attach tree op e with
  | case1 root left right op e hlt ih =>
    rw [inOrder_binary hlt.1, inOrder_binary hlt.1, ih hop he]
    simp
  | case2 root left right op e hle =>
    rw [inOrder_binary hop, inOrder_of_infixOp?_eq_none he]
  | case3 tree op e hne =>
    rw [inOrder_binary hop, inOrder_of_infixOp?_eq_none he]

theorem Grouped.attach (h : tree.Grouped) (hop : op ≠ .index) (he : e.infixOp? = none) :
    (tree.attach op e).Grouped := by
  have hright : ∀ o ∈ e.infixOp?, op.precedence < o.precedence := by simp [he]
  induction h with
  | @operand tree htree =>
    have hleft : ∀ o ∈ tree.infixOp?, op.precedence ≤ o.precedence := by simp [htree]
    rw [attach_of_le hleft]
    exact .binary hop (.operand htree) (.operand he) hleft hright
  | @binary root left right hroot hl hr hleft hlt ihl ihr =>
    by_cases hlow : root.precedence < op.precedence
    · rw [attach_of_lt hroot hlow]
      refine .binary hroot hl ihr hleft fun o ho => ?_
      obtain rfl | ho := infixOp?_attach hop ho
      · exact hlow
      · exact hlt o ho
    · have hle : ∀ o ∈ (Expr.binary root left right).infixOp?, op.precedence ≤ o.precedence := by
        simpa [hroot] using hlow
      rw [attach_of_le hle]
      exact .binary hop (.binary hroot hl hr hleft hlt) (.operand he) hle hright

/-! ### Sequences -/

/-- Operators and operands, attached to a first operand one after the other. -/
def group (first : Expr) (rest : List (BinaryOp × Expr)) : Expr :=
  rest.foldl (fun tree item => tree.attach item.1 item.2) first

/-- The items of a sequence after its first operand: operators that stand between operands, and
operands without such operators at their roots. -/
def AreItems (rest : List (BinaryOp × Expr)) : Prop :=
  ∀ item ∈ rest, item.1 ≠ .index ∧ item.2.infixOp? = none

@[simp]
theorem group_nil : group tree [] = tree :=
  rfl

@[simp]
theorem group_cons : group tree ((op, e) :: rest) = group (tree.attach op e) rest :=
  rfl

theorem group_append : group tree (rest ++ rest') = group (group tree rest) rest' :=
  List.foldl_append

theorem inOrder_group (hrest : AreItems rest) :
    (group tree rest).inOrder = (tree.inOrder.1, tree.inOrder.2 ++ rest) := by
  induction rest generalizing tree with
  | nil => simp
  | cons item rest ih =>
    obtain ⟨⟨hop, he⟩, hrest⟩ := List.forall_mem_cons.1 hrest
    rw [group_cons, ih hrest, inOrder_attach hop he]
    simp

theorem Grouped.group (h : tree.Grouped) (hrest : AreItems rest) : (tree.group rest).Grouped := by
  induction rest generalizing tree with
  | nil => exact h
  | cons item rest ih =>
    obtain ⟨⟨hop, he⟩, hrest⟩ := List.forall_mem_cons.1 hrest
    exact ih (h.attach hop he) hrest

/-- Operators that bind more tightly than the one at the root go into its right operand. -/
theorem group_binary (hop : op ≠ .index) (h : ∀ item ∈ rest, op.precedence < item.1.precedence) :
    (binary op left right).group rest = .binary op left (right.group rest) := by
  induction rest generalizing right with
  | nil => rfl
  | cons item rest ih =>
    obtain ⟨hlt, hrest⟩ := List.forall_mem_cons.1 h
    rw [group_cons, attach_of_lt hop hlt, ih hrest]
    rfl

/-- A grouped tree is the one that its operators and operands are grouped to. -/
theorem Grouped.group_eq (h : e.Grouped) : e.inOrder.1.group e.inOrder.2 = e := by
  induction h with
  | operand h => rw [inOrder_of_infixOp?_eq_none h, group_nil]
  | binary hop hl hr hleft hright ihl ihr =>
    -- The operators of the right operand are tighter, so what is attached with them stays in it.
    have htight := hr.le_of_mem_inOrder hright
    rw [inOrder_binary hop, group_append, ihl, group_cons, attach_of_le hleft,
      group_binary hop htight, ihr]

/-- A sequence of operands with operators between them is grouped in exactly one way. -/
theorem existsUnique_grouped (hfirst : first.infixOp? = none) (hrest : AreItems rest) :
    ∃! e : Expr, e.inOrder = (first, rest) ∧ e.Grouped := by
  refine ⟨first.group rest, ⟨?_, (Grouped.operand hfirst).group hrest⟩, ?_⟩
  · rw [inOrder_group hrest, inOrder_of_infixOp?_eq_none hfirst, List.nil_append]
  · rintro e ⟨horder, he⟩
    have heq := he.group_eq
    rw [horder] at heq
    exact heq.symm

end Expr

end PredicateSql
