import ExprLang.Proofs.TypeSoundness

/-! # Two passes or one

Binding first and evaluating afterwards gives the same values as a single pass that looks at the
types of values only when it meets them. The two differ in one way: a single pass may stop at a
division by zero or an overflow before it comes to an operator that cannot be bound. -/

namespace ExprLang

/-- `RefusedAt node d`: the symbol at the node has no operator for some types of operands, and `d`
says so. -/
inductive RefusedAt : Expr.Node → Diagnostic → Prop
  | unary {s : Symbol} {pos : Position} {t : DataType} {d : Diagnostic} :
    UnaryOperator.resolve s pos t = .error d → RefusedAt (.unary s pos) d
  | binary {s : Symbol} {pos : Position} {t u : DataType} {d : Diagnostic} :
    BinaryOperator.resolve s pos t u = .error d → RefusedAt (.binary s pos) d

/-! ### Expressions that can be bound -/

theorem Binds.evaluateDirectly_eq {e : Expr} {b : Typed} (h : Binds e b) :
    e.evaluateDirectly = b.evaluate := by
  induction h with
  | literal => rfl
  | @unary s pos e b op hb hop ih =>
    obtain ⟨-, hsymbol, -⟩ := UnaryOperator.lookup?_eq_some hop
    simp only [Expr.evaluateDirectly, Typed.evaluate, ih]
    cases ha : b.evaluate with
    | error d => rfl
    | ok a =>
      -- the type of the value is the one that binding has found, so the same row is found again
      have hresolve : UnaryOperator.resolve s pos a.type = .ok op := by
        rw [hb.type_of_evaluate ha]
        exact UnaryOperator.resolve_eq_ok_iff.2 hop
      simp only [bind, Except.bind, hresolve, hsymbol]
  | @binary s pos l r bl br op hl hr hop ihl ihr =>
    obtain ⟨-, hsymbol, -, -⟩ := BinaryOperator.lookup?_eq_some hop
    simp only [Expr.evaluateDirectly, Typed.evaluate, ihl, ihr]
    cases ha : bl.evaluate with
    | error d => rfl
    | ok a =>
      cases hb : br.evaluate with
      | error d => rfl
      | ok b =>
        have hresolve : BinaryOperator.resolve s pos a.type b.type = .ok op := by
          rw [hl.type_of_evaluate ha, hr.type_of_evaluate hb]
          exact BinaryOperator.resolve_eq_ok_iff.2 hop
        simp only [bind, Except.bind, hresolve, hsymbol]
  | grouping _ ih => exact ih

theorem Binds.evaluateDirectly_cases {e : Expr} {b : Typed} (h : Binds e b) :
    (∃ v, e.evaluateDirectly = .ok v ∧ v.type = b.type) ∨
      ∃ node ∈ e.postorder, ∃ d, FaultsAt node d ∧ e.evaluateDirectly = .error d := by
  rw [h.evaluateDirectly_eq]
  exact h.evaluate_cases

/-! ### Faults of operands -/

namespace Expr

variable {s : Symbol} {pos : Position} {e l r : Expr} {d d' : Diagnostic}

theorem evaluateDirectly_unary_error (h : e.evaluateDirectly = .error d) :
    (unary s pos e).evaluateDirectly = .error d := by
  simp only [evaluateDirectly, h, Bind.bind, Except.bind]

theorem evaluateDirectly_left_error (h : l.evaluateDirectly = .error d) :
    (binary s pos l r).evaluateDirectly = .error d := by
  simp only [evaluateDirectly, h, Bind.bind, Except.bind]

theorem evaluateDirectly_right_error {a : Value} (ha : l.evaluateDirectly = .ok a)
    (h : r.evaluateDirectly = .error d) : (binary s pos l r).evaluateDirectly = .error d := by
  simp only [evaluateDirectly, ha, h, Bind.bind, Except.bind]

/-! ### Expressions that cannot be bound -/

theorem refusedAt_of_refuses (h : Refuses e d) : ∃ node ∈ e.postorder, RefusedAt node d := by
  induction h with
  | unary _ hrow => exact ⟨_, by simp, .unary hrow⟩
  | binary _ _ hrow => exact ⟨_, by simp, .binary hrow⟩
  | operand _ ih | left _ ih | right _ _ ih | grouping _ ih =>
    obtain ⟨node, hnode, hrefused⟩ := ih
    exact ⟨node, by simp [hnode], hrefused⟩

/-- `StopsEarlier e d d'`: the operation that faults with `d'` stands before the operator that `d`
refuses. -/
def StopsEarlier (e : Expr) (d d' : Diagnostic) : Prop :=
  ∃ m n, [m, n].Sublist e.postorder ∧ FaultsAt m d' ∧ RefusedAt n d

theorem StopsEarlier.of_mem {m n : Node} {before after : List Node} (hm : m ∈ before)
    (hn : n ∈ after) (hfault : FaultsAt m d') (hrefused : RefusedAt n d)
    (hsub : (before ++ after).Sublist e.postorder) : StopsEarlier e d d' := by
  have hmn : ([m] ++ [n]).Sublist (before ++ after) :=
    (List.singleton_sublist.2 hm).append (List.singleton_sublist.2 hn)
  exact ⟨m, n, hmn.trans hsub, hfault, hrefused⟩

/-- Direct evaluation ends with `d`, or it has stopped before. -/
def FailsBy (e : Expr) (d : Diagnostic) : Prop :=
  e.evaluateDirectly = .error d ∨ ∃ d', StopsEarlier e d d' ∧ e.evaluateDirectly = .error d'

/-- What ends the evaluation of an operand ends that of the whole. -/
theorem FailsBy.of_operand {operand : Expr} (h : FailsBy operand d)
    (herror : ∀ d', operand.evaluateDirectly = .error d' → e.evaluateDirectly = .error d')
    (hsub : operand.postorder.Sublist e.postorder) : FailsBy e d := by
  rcases h with h | ⟨d', ⟨m, n, hmn, hfault, hrefused⟩, h⟩
  · exact .inl (herror d h)
  · exact .inr ⟨d', ⟨m, n, hmn.trans hsub, hfault, hrefused⟩, herror d' h⟩

theorem failsBy_unary {b : Typed} (hb : Binds e b)
    (h : UnaryOperator.resolve s pos b.type = .error d) : FailsBy (unary s pos e) d := by
  rcases hb.evaluateDirectly_cases with ⟨a, ha, htype⟩ | ⟨m, hm, d', hfault, hd'⟩
  · left
    rw [← htype] at h
    simp only [evaluateDirectly, ha, h, Bind.bind, Except.bind]
  · right
    refine ⟨d', ?_, evaluateDirectly_unary_error hd'⟩
    exact .of_mem hm (List.mem_singleton_self _) hfault (.unary h) (by simp)

theorem failsBy_binary {bl br : Typed} (hl : Binds l bl) (hr : Binds r br)
    (h : BinaryOperator.resolve s pos bl.type br.type = .error d) :
    FailsBy (binary s pos l r) d := by
  rcases hl.evaluateDirectly_cases with ⟨a, ha, hatype⟩ | ⟨m, hm, d', hfault, hd'⟩
  · rcases hr.evaluateDirectly_cases with ⟨b, hb, hbtype⟩ | ⟨m, hm, d', hfault, hd'⟩
    · left
      rw [← hatype, ← hbtype] at h
      simp only [evaluateDirectly, ha, hb, h, Bind.bind, Except.bind]
    · right
      refine ⟨d', ?_, evaluateDirectly_right_error ha hd'⟩
      exact .of_mem hm (List.mem_singleton_self _) hfault (.binary h) (by simp)
  · right
    have hnode : Node.binary s pos ∈ r.postorder ++ [.binary s pos] := by simp
    refine ⟨d', ?_, evaluateDirectly_left_error hd'⟩
    exact .of_mem hm hnode hfault (.binary h) (by simp)

theorem failsBy_right {bl : Typed} (hl : Binds l bl) (hr : Refuses r d) (ih : FailsBy r d) :
    FailsBy (binary s pos l r) d := by
  have hboth : (l.postorder ++ r.postorder).Sublist (binary s pos l r).postorder := by simp
  rcases hl.evaluateDirectly_cases with ⟨a, ha, -⟩ | ⟨m, hm, d', hfault, hd'⟩
  · exact ih.of_operand (fun d' => evaluateDirectly_right_error ha)
      ((List.sublist_append_right _ _).trans hboth)
  -- the left operand stops, and the refused operator stands somewhere in the right one
  · right
    obtain ⟨n, hn, hrefused⟩ := refusedAt_of_refuses hr
    refine ⟨d', ?_, evaluateDirectly_left_error hd'⟩
    exact .of_mem hm hn hfault hrefused hboth

theorem failsBy_of_refuses (h : Refuses e d) : FailsBy e d := by
  induction h with
  | operand _ ih => exact ih.of_operand (fun _ => evaluateDirectly_unary_error) (by simp)
  | unary hb hrow => exact failsBy_unary hb hrow
  | left _ ih => exact ih.of_operand (fun _ => evaluateDirectly_left_error) (by simp)
  | right hl hr ih => exact failsBy_right hl hr ih
  | binary hl hr hrow => exact failsBy_binary hl hr hrow
  | grouping _ ih => exact ih.of_operand (fun _ hd => hd) (by simp)

theorem evaluate_of_bind_ok {b : Typed} (h : e.bind = .ok b) : e.evaluate = e.evaluateDirectly := by
  rw [(binds_of_bind h).evaluateDirectly_eq]
  simp only [evaluate, h, Bind.bind, Except.bind]

theorem evaluate_of_bind_error (h : e.bind = .error d) : e.evaluate = .error d := by
  simp only [evaluate, h, Bind.bind, Except.bind]

/-- Evaluation after binding has the values of direct evaluation. On an expression that can be bound
the two agree in every outcome; on one that cannot, evaluation ends with the diagnostic of binding,
and so does direct evaluation unless a division by zero or an overflow has stopped it before. -/
theorem evaluate_agrees_directly (e : Expr) :
    (∀ v, e.evaluate = .ok v ↔ e.evaluateDirectly = .ok v) ∧
    (∀ b, e.bind = .ok b → e.evaluate = e.evaluateDirectly) ∧
    (∀ d, e.bind = .error d → e.evaluate = .error d ∧
      (e.evaluateDirectly = .error d ∨
        ∃ d', StopsEarlier e d d' ∧ e.evaluateDirectly = .error d')) := by
  refine ⟨?_, fun b => evaluate_of_bind_ok,
    fun d h => ⟨evaluate_of_bind_error h, failsBy_of_refuses (refuses_of_bind h)⟩⟩
  intro v
  cases h : e.bind with
  | ok b => rw [evaluate_of_bind_ok h]
  | error d =>
    rw [evaluate_of_bind_error h]
    rcases failsBy_of_refuses (refuses_of_bind h) with hd | ⟨d', -, hd⟩
    all_goals simp [hd]

-- `1 / 0 + -"a"`: the division stops a single pass before the negation of a string is met
example :
    let e := binary .plus ⟨1, 7⟩
      (binary .slash ⟨1, 3⟩ (literal (.number (.ofNat 1)) ⟨1, 1⟩)
        (literal (.number (.zero false)) ⟨1, 5⟩))
      (unary .minus ⟨1, 9⟩ (literal (.string "a") ⟨1, 10⟩))
    ∃ d d', e.evaluate = .error d ∧ e.evaluateDirectly = .error d' ∧ StopsEarlier e d d' :=
  ⟨_, _, rfl, rfl, .binary .slash ⟨1, 3⟩, .unary .minus ⟨1, 9⟩, by decide, .division,
    .unary (t := .string) rfl⟩

end Expr

end ExprLang
