import ExprLang.Proofs.Binding

/-! # Type soundness

A bound expression evaluates to a value of its type, or it stops at a division by zero or at an
overflow of one of its own operators. No operation meets a value that it is not for. -/

namespace ExprLang

namespace Expr

@[simp] theorem postorder_unary (op : Symbol) (pos : Position) (e : Expr) :
    (unary op pos e).postorder = e.postorder ++ [.unary op pos] := List.map_append

@[simp] theorem postorder_binary (op : Symbol) (pos : Position) (l r : Expr) :
    (binary op pos l r).postorder = l.postorder ++ (r.postorder ++ [.binary op pos]) := by
  simp [postorder, parts, node]

@[simp] theorem postorder_grouping (e : Expr) :
    (grouping e).postorder = e.postorder ++ [.grouping] := List.map_append

theorem mem_postorder_iff {e : Expr} {node : Node} : node ∈ e.postorder ↔ node ∈ e.preorder := by
  induction e with
  | literal => rfl
  | unary op pos operand ih => simp [preorder, ih, or_comm]
  | binary op pos left right ihl ihr =>
    simp only [postorder_binary, preorder, List.mem_append, List.mem_cons, List.not_mem_nil,
      or_false, ihl, ihr]
    rw [← or_assoc, or_comm]
  | grouping operand ih => simp [preorder, ih, or_comm]

end Expr

/-- `FaultsAt node d`: the operation at the node has no result, and `d` says so. -/
inductive FaultsAt : Expr.Node → Diagnostic → Prop
  | division {pos : Position} :
    FaultsAt (.binary .slash pos) (.syntaxError pos "cannot divide by zero")
  | overflow {s : Symbol} {pos : Position} : s ∈ Typing.arithmetic →
    FaultsAt (.binary s pos) (.syntaxError pos ("numeric overflow in `" ++ s.text ++ "`"))

/-! ### One operator -/

theorem Typed.evaluate_unary {op : UnaryOperator} {operand : Typed} {a v : Value}
    (ha : operand.evaluate = .ok a) (hv : op.operation.apply a = .ok v) (pos : Position) :
    (Typed.unary op pos operand).evaluate = .ok v := by
  simp only [evaluate, ha, bind, Except.bind, hv]
  rfl

theorem Typed.evaluate_binary {op : BinaryOperator} {left right : Typed} {a b : Value}
    (ha : left.evaluate = .ok a) (hb : right.evaluate = .ok b) (pos : Position) :
    (Typed.binary op pos left right).evaluate =
      (op.operation.apply a b).mapError (·.diagnostic op.symbol pos) := by
  simp only [evaluate, ha, hb, bind, Except.bind]

theorem BinaryOperator.Allows.cases {op : BinaryOperator} {r : Except OperationFault Value}
    (h : op.Allows r) (pos : Position) :
    (∃ v, r.mapError (·.diagnostic op.symbol pos) = .ok v ∧ v.type = op.result) ∨
      ∃ d, FaultsAt (.binary op.symbol pos) d ∧
        r.mapError (·.diagnostic op.symbol pos) = .error d := by
  rcases h with ⟨v, rfl, hv⟩ | ⟨rfl, hsymbol⟩ | ⟨rfl, hsymbol⟩
  · exact .inl ⟨v, rfl, hv⟩
  · rw [hsymbol]
    exact .inr ⟨_, .division, rfl⟩
  · exact .inr ⟨_, .overflow hsymbol, rfl⟩

/-! ### Whole expressions -/

theorem Binds.evaluate_cases {e : Expr} {b : Typed} (h : Binds e b) :
    (∃ v, b.evaluate = .ok v ∧ v.type = b.type) ∨
      ∃ node ∈ e.postorder, ∃ d, FaultsAt node d ∧ b.evaluate = .error d := by
  induction h with
  | literal => exact .inl ⟨_, rfl, rfl⟩
  | @unary s pos e b op _ hop ih =>
    obtain ⟨hrow, -, hoperand⟩ := UnaryOperator.lookup?_eq_some hop
    rcases ih with ⟨a, ha, htype⟩ | ⟨node, hnode, d, hfault, hd⟩
    · obtain ⟨v, hv, hresult⟩ := UnaryOperator.apply_eq_ok hrow (htype.trans hoperand.symm)
      exact .inl ⟨v, Typed.evaluate_unary ha hv pos, hresult⟩
    · refine .inr ⟨node, by simp [hnode], d, hfault, ?_⟩
      simp only [Typed.evaluate, hd, bind, Except.bind]
  | @binary s pos l r bl br op _ _ hop ihl ihr =>
    obtain ⟨hrow, rfl, hleft, hright⟩ := BinaryOperator.lookup?_eq_some hop
    rcases ihl with ⟨a, ha, hatype⟩ | ⟨node, hnode, d, hfault, hd⟩
    · rcases ihr with ⟨b, hb, hbtype⟩ | ⟨node, hnode, d, hfault, hd⟩
      · have hallows := BinaryOperator.allows_apply hrow (hatype.trans hleft.symm)
          (hbtype.trans hright.symm)
        rw [Typed.evaluate_binary ha hb]
        rcases hallows.cases pos with hvalue | ⟨d, hfault, hd⟩
        · exact .inl hvalue
        · exact .inr ⟨.binary op.symbol pos, by simp, d, hfault, hd⟩
      · refine .inr ⟨node, by simp [hnode], d, hfault, ?_⟩
        simp only [Typed.evaluate, ha, hd, bind, Except.bind]
    · refine .inr ⟨node, by simp [hnode], d, hfault, ?_⟩
      simp only [Typed.evaluate, hd, bind, Except.bind]
  | @grouping e b _ ih =>
    rcases ih with hvalue | ⟨node, hnode, hfault⟩
    · exact .inl hvalue
    · exact .inr ⟨node, by simp [hnode], hfault⟩

theorem Binds.type_of_evaluate {e : Expr} {b : Typed} (h : Binds e b) {v : Value}
    (hv : b.evaluate = .ok v) : v.type = b.type := by
  rcases h.evaluate_cases with ⟨w, hw, htype⟩ | ⟨_, _, _, _, hd⟩
  · rw [hw] at hv
    rw [← Except.ok.inj hv]
    exact htype
  · rw [hd] at hv
    cases hv

/-! ### Every place where an operation is applied -/

def Typed.subterms : Typed → List Typed
  | literal value => [literal value]
  | unary op pos operand => unary op pos operand :: operand.subterms
  | binary op pos left right => binary op pos left right :: (left.subterms ++ right.subterms)
  | grouping operand => grouping operand :: operand.subterms

theorem Binds.exists_of_mem_subterms {e : Expr} {b sub : Typed} (h : Binds e b)
    (hsub : sub ∈ b.subterms) : ∃ e', Binds e' sub := by
  induction h with
  | @literal l pos =>
    obtain rfl := List.mem_singleton.1 hsub
    exact ⟨.literal l pos, .literal⟩
  | @unary s pos e b op hb hop ih =>
    rcases List.mem_cons.1 hsub with rfl | hsub
    · exact ⟨_, .unary hb hop⟩
    · exact ih hsub
  | @binary s pos l r bl br op hl hr hop ihl ihr =>
    rcases List.mem_cons.1 hsub with rfl | hsub
    · exact ⟨_, .binary hl hr hop⟩
    · rcases List.mem_append.1 hsub with hsub | hsub
      · exact ihl hsub
      · exact ihr hsub
  | @grouping e b hb ih =>
    rcases List.mem_cons.1 hsub with rfl | hsub
    · exact ⟨_, .grouping hb⟩
    · exact ih hsub

theorem Binds.apply_unary {e : Expr} {op : UnaryOperator} {pos : Position} {operand : Typed}
    (h : Binds e (.unary op pos operand)) {a : Value} (ha : operand.evaluate = .ok a) :
    a.type = op.operand ∧ op.operation.apply a ≠ .error .unsupported := by
  cases h with
  | unary hoperand hop =>
    obtain ⟨hrow, -, htype⟩ := UnaryOperator.lookup?_eq_some hop
    have hatype : a.type = op.operand := (hoperand.type_of_evaluate ha).trans htype.symm
    obtain ⟨v, hv, -⟩ := UnaryOperator.apply_eq_ok hrow hatype
    exact ⟨hatype, by simp [hv]⟩

theorem Binds.apply_binary {e : Expr} {op : BinaryOperator} {pos : Position} {left right : Typed}
    (h : Binds e (.binary op pos left right)) {a b : Value} (ha : left.evaluate = .ok a)
    (hb : right.evaluate = .ok b) :
    a.type = op.left ∧ b.type = op.right ∧ op.operation.apply a b ≠ .error .unsupported := by
  cases h with
  | binary hl hr hop =>
    obtain ⟨hrow, -, hleft, hright⟩ := BinaryOperator.lookup?_eq_some hop
    have hatype : a.type = op.left := (hl.type_of_evaluate ha).trans hleft.symm
    have hbtype : b.type = op.right := (hr.type_of_evaluate hb).trans hright.symm
    refine ⟨hatype, hbtype, ?_⟩
    rcases BinaryOperator.allows_apply hrow hatype hbtype with ⟨v, hv, -⟩ | ⟨hv, -⟩ | ⟨hv, -⟩
    all_goals simp [hv]

/-- What an expression is bound to evaluates to a value of its type, or it stops at a division by zero
or an overflow, placed at a node of the expression with that operator. Wherever an operation inside
it is applied, the values are of the types that the operation is for. -/
theorem Typed.evaluate_sound (e : Expr) (b : Typed) (h : e.bind = .ok b) :
    ((∃ v, b.evaluate = .ok v ∧ v.type = b.type) ∨
      (∃ pos, .binary .slash pos ∈ e.preorder ∧
        b.evaluate = .error (.syntaxError pos "cannot divide by zero")) ∨
      (∃ s pos, s ∈ Typing.arithmetic ∧ .binary s pos ∈ e.preorder ∧
        b.evaluate = .error (.syntaxError pos ("numeric overflow in `" ++ s.text ++ "`")))) ∧
    (∀ op pos operand, .unary op pos operand ∈ b.subterms →
      ∀ x, operand.evaluate = .ok x →
        x.type = op.operand ∧ op.operation.apply x ≠ .error .unsupported) ∧
    (∀ op pos left right, .binary op pos left right ∈ b.subterms →
      ∀ x y, left.evaluate = .ok x → right.evaluate = .ok y →
        x.type = op.left ∧ y.type = op.right ∧ op.operation.apply x y ≠ .error .unsupported) := by
  have hbinds := binds_of_bind h
  refine ⟨?_, ?_, ?_⟩
  · rcases hbinds.evaluate_cases with hvalue | ⟨node, hnode, d, hfault, hd⟩
    · exact .inl hvalue
    · rw [Expr.mem_postorder_iff] at hnode
      cases hfault with
      | division => exact .inr (.inl ⟨_, hnode, hd⟩)
      | overflow hs => exact .inr (.inr ⟨_, _, hs, hnode, hd⟩)
  · intro op pos operand hsub x hx
    obtain ⟨_, hb⟩ := hbinds.exists_of_mem_subterms hsub
    exact hb.apply_unary hx
  · intro op pos left right hsub x y hx hy
    obtain ⟨_, hb⟩ := hbinds.exists_of_mem_subterms hsub
    exact hb.apply_binary hx hy

/-- The comparison `1 < (1 / 0)`, which is well typed. -/
def comparedQuotient : Expr :=
  .binary .less ⟨1, 3⟩ (.literal (.number (.ofNat 1)) ⟨1, 1⟩)
    (.grouping (.binary .slash ⟨1, 8⟩ (.literal (.number (.ofNat 1)) ⟨1, 6⟩)
      (.literal (.number (.zero false)) ⟨1, 10⟩)))

theorem Typed.evaluate_sound_comparedQuotient :
    ∃ b, comparedQuotient.bind = .ok b ∧ b.type = .boolean ∧
      ((∃ v, b.evaluate = .ok v ∧ v.type = b.type) ∨
        (∃ pos, .binary .slash pos ∈ comparedQuotient.preorder ∧
          b.evaluate = .error (.syntaxError pos "cannot divide by zero")) ∨
        (∃ s pos, s ∈ Typing.arithmetic ∧ .binary s pos ∈ comparedQuotient.preorder ∧
          b.evaluate = .error (.syntaxError pos ("numeric overflow in `" ++ s.text ++ "`")))) :=
  ⟨_, rfl, rfl, (Typed.evaluate_sound comparedQuotient _ rfl).1⟩

end ExprLang
