import ExprLang.Typed.Evaluation
import ExprLang.Typed.Typing

/-! # Binding

A bound expression has the shape of the expression that it was bound from. Each of its operators is
the row of the table for the symbol and for the types of the operands, and the operation of a row
takes values of the types on its left to a value of the type on its right, unless it divides by zero
or overflows. -/

namespace ExprLang

theorem Except.bind_eq_ok_iff {ε α β : Type} {x : Except ε α} {f : α → Except ε β} {b : β} :
    (x >>= f) = .ok b ↔ ∃ a, x = .ok a ∧ f a = .ok b := by
  cases x <;> simp [bind, Except.bind]

theorem Except.bind_eq_error_iff {ε α β : Type} {x : Except ε α} {f : α → Except ε β} {d : ε} :
    (x >>= f) = .error d ↔ x = .error d ∨ ∃ a, x = .ok a ∧ f a = .error d := by
  cases x <;> simp [bind, Except.bind]

/-! ### Rows of the tables -/

namespace UnaryOperator

theorem lookup?_eq_some {s : Symbol} {t : DataType} {op : UnaryOperator}
    (h : lookup? s t = some op) : op ∈ table ∧ op.symbol = s ∧ op.operand = t := by
  have hmem := List.mem_of_find?_eq_some h
  have hrow := List.find?_some h
  simp only [Bool.and_eq_true, decide_eq_true_eq] at hrow
  exact ⟨hmem, hrow⟩

theorem resolve_eq_ok_iff {s : Symbol} {pos : Position} {t : DataType} {op : UnaryOperator} :
    resolve s pos t = .ok op ↔ lookup? s t = some op := by
  unfold resolve
  by_cases hknown : isKnown s = true
  · simp only [hknown, if_true]
    split <;> simp_all
  · simp only [hknown, Bool.false_eq_true, if_false, reduceCtorEq, false_iff]
    intro hlookup
    obtain ⟨hmem, hsymbol, -⟩ := lookup?_eq_some hlookup
    apply hknown
    simp only [isKnown, List.any_eq_true, decide_eq_true_eq]
    exact ⟨op, hmem, hsymbol⟩

theorem apply_eq_ok {op : UnaryOperator} (h : op ∈ table) {a : Value} (ha : a.type = op.operand) :
    ∃ v, op.operation.apply a = .ok v ∧ v.type = op.result := by
  simp only [table, List.mem_cons, List.not_mem_nil, or_false] at h
  rcases h with rfl | rfl
  all_goals
    cases a
    all_goals first | exact ⟨_, rfl, rfl⟩ | cases ha

end UnaryOperator

namespace BinaryOperator

theorem lookup?_eq_some {s : Symbol} {t u : DataType} {op : BinaryOperator}
    (h : lookup? s t u = some op) :
    op ∈ table ∧ op.symbol = s ∧ op.left = t ∧ op.right = u := by
  have hmem := List.mem_of_find?_eq_some h
  have hrow := List.find?_some h
  simp only [Bool.and_eq_true, decide_eq_true_eq, and_assoc] at hrow
  exact ⟨hmem, hrow⟩

theorem resolve_eq_ok_iff {s : Symbol} {pos : Position} {t u : DataType} {op : BinaryOperator} :
    resolve s pos t u = .ok op ↔ lookup? s t u = some op := by
  unfold resolve
  by_cases hknown : isKnown s = true
  · simp only [hknown, if_true]
    split <;> simp_all
  · simp only [hknown, Bool.false_eq_true, if_false, reduceCtorEq, false_iff]
    intro hlookup
    obtain ⟨hmem, hsymbol, -⟩ := lookup?_eq_some hlookup
    apply hknown
    simp only [isKnown, List.any_eq_true, decide_eq_true_eq]
    exact ⟨op, hmem, hsymbol⟩

end BinaryOperator

/-! ### Operations on values of the right types -/

theorem Value.eq_number_of_type {v : Value} (h : v.type = .number) : ∃ x, v = .number x := by
  cases v with
  | number x => exact ⟨x, rfl⟩
  | string | boolean | void => cases h

theorem Value.eq_string_of_type {v : Value} (h : v.type = .string) : ∃ s, v = .string s := by
  cases v with
  | string s => exact ⟨s, rfl⟩
  | number | boolean | void => cases h

theorem Value.eq_boolean_of_type {v : Value} (h : v.type = .boolean) : ∃ a, v = .boolean a := by
  cases v with
  | boolean a => exact ⟨a, rfl⟩
  | number | string | void => cases h

/-- A number, or an overflow. -/
def IsChecked (r : Except OperationFault Binary64) : Prop :=
  (∃ z, r = .ok z) ∨ r = .error .overflow

theorem Binary64.checked_isChecked (x y result : Binary64) : IsChecked (x.checked y result) := by
  unfold checked
  split
  · exact .inr rfl
  · exact .inl ⟨result, rfl⟩

theorem Binary64.power_isChecked (x y : Binary64) : IsChecked (x.power y) := by
  simp only [power]
  split
  · exact .inl ⟨infinity false, rfl⟩
  · exact checked_isChecked x y (x.pow y)

theorem Binary64.quotient_cases (x y : Binary64) :
    x.quotient y = .error .divisionByZero ∨ IsChecked (x.quotient y) := by
  unfold quotient
  split
  · exact .inl rfl
  · exact .inr (checked_isChecked x y (x.div y))

namespace BinaryOperator

/-- What the operation of a row may do on two values of its operand types. -/
def Allows (op : BinaryOperator) (r : Except OperationFault Value) : Prop :=
  (∃ v, r = .ok v ∧ v.type = op.result) ∨
    (r = .error .divisionByZero ∧ op.symbol = .slash) ∨
    (r = .error .overflow ∧ op.symbol ∈ Typing.arithmetic)

theorem Allows.of_isChecked {op : BinaryOperator} {r : Except OperationFault Binary64}
    (h : IsChecked r) (hresult : op.result = .number) (hsymbol : op.symbol ∈ Typing.arithmetic) :
    op.Allows (r.map .number) := by
  rcases h with ⟨z, rfl⟩ | rfl
  · exact .inl ⟨.number z, rfl, hresult.symm⟩
  · exact .inr (.inr ⟨rfl, hsymbol⟩)

theorem allows_apply {op : BinaryOperator} (h : op ∈ table) {a b : Value} (ha : a.type = op.left)
    (hb : b.type = op.right) : op.Allows (op.operation.apply a b) := by
  simp only [table, List.mem_cons, List.not_mem_nil, or_false] at h
  rcases h with rfl | rfl | rfl | rfl | rfl | rfl | rfl | rfl | rfl | rfl | rfl | rfl | rfl | rfl
  all_goals first
    | obtain ⟨x, rfl⟩ := Value.eq_number_of_type ha
      obtain ⟨y, rfl⟩ := Value.eq_number_of_type hb
    | obtain ⟨s, rfl⟩ := Value.eq_string_of_type ha
      obtain ⟨t, rfl⟩ := Value.eq_string_of_type hb
    | obtain ⟨p, rfl⟩ := Value.eq_boolean_of_type ha
      obtain ⟨q, rfl⟩ := Value.eq_boolean_of_type hb
  · exact .of_isChecked (x.checked_isChecked y (x.add y)) rfl (by decide)
  · exact .of_isChecked (x.checked_isChecked y (x.sub y)) rfl (by decide)
  · exact .of_isChecked (x.checked_isChecked y (x.mul y)) rfl (by decide)
  · rcases x.quotient_cases y with hzero | hchecked
    · exact .inr (.inl ⟨by simp only [BinaryOperation.apply, hzero]; rfl, rfl⟩)
    · exact .of_isChecked hchecked rfl (by decide)
  · exact .of_isChecked (x.power_isChecked y) rfl (by decide)
  -- comparisons and the concatenation of strings always have a value
  all_goals exact .inl ⟨_, rfl, rfl⟩

end BinaryOperator

/-! ### Bound expressions -/

/-- `Binds e b`: every operator of `b` is the row that its symbol and the types of its operands in `e`
select. -/
inductive Binds : Expr → Typed → Prop
  | literal {l : Literal} {pos : Position} : Binds (.literal l pos) (.literal l.value)
  | unary {s : Symbol} {pos : Position} {e : Expr} {b : Typed} {op : UnaryOperator} :
    Binds e b → UnaryOperator.lookup? s b.type = some op → Binds (.unary s pos e) (.unary op pos b)
  | binary {s : Symbol} {pos : Position} {l r : Expr} {bl br : Typed} {op : BinaryOperator} :
    Binds l bl → Binds r br → BinaryOperator.lookup? s bl.type br.type = some op →
      Binds (.binary s pos l r) (.binary op pos bl br)
  | grouping {e : Expr} {b : Typed} : Binds e b → Binds (.grouping e) (.grouping b)

theorem binds_of_bind {e : Expr} {b : Typed} (h : e.bind = .ok b) : Binds e b := by
  induction e generalizing b with
  | literal l pos =>
    cases h
    exact .literal
  | unary s pos e ih =>
    obtain ⟨be, hbe, h⟩ := Except.bind_eq_ok_iff.1 h
    obtain ⟨op, hop, h⟩ := Except.bind_eq_ok_iff.1 h
    cases h
    exact .unary (ih hbe) (UnaryOperator.resolve_eq_ok_iff.1 hop)
  | binary s pos l r ihl ihr =>
    obtain ⟨bl, hbl, h⟩ := Except.bind_eq_ok_iff.1 h
    obtain ⟨br, hbr, h⟩ := Except.bind_eq_ok_iff.1 h
    obtain ⟨op, hop, h⟩ := Except.bind_eq_ok_iff.1 h
    cases h
    exact .binary (ihl hbl) (ihr hbr) (BinaryOperator.resolve_eq_ok_iff.1 hop)
  | grouping e ih =>
    obtain ⟨be, hbe, h⟩ := Except.bind_eq_ok_iff.1 h
    cases h
    exact .grouping (ih hbe)

/-! ### Expressions that cannot be bound -/

/-- `Refuses e d`: binding `e` from left to right, the first operator without a row is the one that `d`
is about. -/
inductive Refuses : Expr → Diagnostic → Prop
  | operand {s : Symbol} {pos : Position} {e : Expr} {d : Diagnostic} :
    Refuses e d → Refuses (.unary s pos e) d
  | unary {s : Symbol} {pos : Position} {e : Expr} {b : Typed} {d : Diagnostic} :
    Binds e b → UnaryOperator.resolve s pos b.type = .error d → Refuses (.unary s pos e) d
  | left {s : Symbol} {pos : Position} {l r : Expr} {d : Diagnostic} :
    Refuses l d → Refuses (.binary s pos l r) d
  | right {s : Symbol} {pos : Position} {l r : Expr} {bl : Typed} {d : Diagnostic} :
    Binds l bl → Refuses r d → Refuses (.binary s pos l r) d
  | binary {s : Symbol} {pos : Position} {l r : Expr} {bl br : Typed} {d : Diagnostic} :
    Binds l bl → Binds r br → BinaryOperator.resolve s pos bl.type br.type = .error d →
      Refuses (.binary s pos l r) d
  | grouping {e : Expr} {d : Diagnostic} : Refuses e d → Refuses (.grouping e) d

theorem refuses_of_bind {e : Expr} {d : Diagnostic} (h : e.bind = .error d) : Refuses e d := by
  induction e with
  | literal => cases h
  | unary s pos e ih =>
    rcases Except.bind_eq_error_iff.1 h with h | ⟨b, hb, h⟩
    · exact .operand (ih h)
    · rcases Except.bind_eq_error_iff.1 h with h | ⟨op, -, h⟩
      · exact .unary (binds_of_bind hb) h
      · cases h
  | binary s pos l r ihl ihr =>
    rcases Except.bind_eq_error_iff.1 h with h | ⟨bl, hbl, h⟩
    · exact .left (ihl h)
    · rcases Except.bind_eq_error_iff.1 h with h | ⟨br, hbr, h⟩
      · exact .right (binds_of_bind hbl) (ihr h)
      · rcases Except.bind_eq_error_iff.1 h with h | ⟨op, -, h⟩
        · exact .binary (binds_of_bind hbl) (binds_of_bind hbr) h
        · cases h
  | grouping e ih =>
    rcases Except.bind_eq_error_iff.1 h with h | ⟨b, -, h⟩
    · exact .grouping (ih h)
    · cases h

end ExprLang
