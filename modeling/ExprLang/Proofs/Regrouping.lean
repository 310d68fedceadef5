import ExprLang.Typed.Evaluation

/-! # Groups

A group says which operands belong together, and a tree says so already. An expression with its
groups taken out, at whatever depth they stand, is bound to the same type, or refused for the same
operator, and has the same value or the same fault. -/

namespace ExprLang

/-- The expression with each group replaced by what stands in it. -/
def Expr.ungrouped : Expr → Expr
  | literal l pos => literal l pos
  | unary op pos operand => unary op pos operand.ungrouped
  | binary op pos left right => binary op pos left.ungrouped right.ungrouped
  | grouping operand => operand.ungrouped

def Typed.ungrouped : Typed → Typed
  | literal value => literal value
  | unary op pos operand => unary op pos operand.ungrouped
  | binary op pos left right => binary op pos left.ungrouped right.ungrouped
  | grouping operand => operand.ungrouped

theorem Expr.preorder_ungrouped (e : Expr) :
    e.ungrouped.preorder = e.preorder.filter (· ≠ .grouping) := by
  induction e with
  | literal l pos => rfl
  | unary op pos operand ih =>
    rw [ungrouped, preorder, preorder, ih, List.filter_cons_of_pos (by simp)]
  | binary op pos left right ihl ihr =>
    rw [ungrouped, preorder, preorder, ihl, ihr, List.filter_cons_of_pos (by simp),
      List.filter_append]
  | grouping operand ih =>
    rw [ungrouped, preorder, ih, List.filter_cons_of_neg (by simp)]

namespace Typed

theorem type_ungrouped (b : Typed) : b.ungrouped.type = b.type := by
  induction b with
  | literal | unary | binary => rfl
  | grouping operand ih => exact ih

theorem evaluate_ungrouped (b : Typed) : b.ungrouped.evaluate = b.evaluate := by
  induction b with
  | literal => rfl
  | unary op pos operand ih => rw [ungrouped, evaluate, evaluate, ih]
  | binary op pos left right ihl ihr => rw [ungrouped, evaluate, evaluate, ihl, ihr]
  | grouping operand ih => exact ih

end Typed

namespace Expr

/-- Binding keeps the groups where they are, and no operator is chosen by them. -/
theorem bind_ungrouped (e : Expr) : e.ungrouped.bind = e.bind.map Typed.ungrouped := by
  induction e with
  | literal l pos => rfl
  | unary s pos operand ih =>
    simp only [ungrouped, bind, ih]
    cases operand.bind with
    | error d => rfl
    | ok b =>
      simp only [Except.map, Bind.bind, Except.bind, b.type_ungrouped]
      cases UnaryOperator.resolve s pos b.type with
      | error d => rfl
      | ok op => rfl
  | binary s pos left right ihl ihr =>
    simp only [ungrouped, bind, ihl, ihr]
    cases left.bind with
    | error d => rfl
    | ok bl =>
      cases right.bind with
      | error d => rfl
      | ok br =>
        simp only [Except.map, Bind.bind, Except.bind, bl.type_ungrouped, br.type_ungrouped]
        cases BinaryOperator.resolve s pos bl.type br.type with
        | error d => rfl
        | ok op => rfl
  | grouping operand ih =>
    simp only [ungrouped, bind, ih]
    cases operand.bind with
    | error d => rfl
    | ok b => rfl

/-- Without its groups an expression keeps all its other nodes, its type or the reason for having
none, and its outcome. -/
theorem ungrouped_alike (e : Expr) :
    e.ungrouped.preorder = e.preorder.filter (· ≠ .grouping) ∧
    e.ungrouped.bind.map Typed.type = e.bind.map Typed.type ∧
    e.ungrouped.evaluate = e.evaluate := by
  refine ⟨e.preorder_ungrouped, ?_, ?_⟩
  · rw [e.bind_ungrouped]
    cases e.bind with
    | error d => rfl
    | ok b => exact congrArg Except.ok b.type_ungrouped
  · rw [evaluate, evaluate, e.bind_ungrouped]
    cases e.bind with
    | error d => rfl
    | ok b => exact b.evaluate_ungrouped

end Expr

end ExprLang
