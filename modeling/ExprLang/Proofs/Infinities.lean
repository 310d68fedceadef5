import ExprLang.Proofs.Recovery
import ExprLang.Proofs.Scanning
import ExprLang.Proofs.Sessions
import ExprLang.Proofs.TypeChecking
import ExprLang.Proofs.WholeNumbers

/-! # Where infinities come from

The literals of a source are finite, and an operation on finite numbers overflows rather than give an
infinity; a NaN gives none either. What is left is a negative power of zero: every infinite number
that is met in an evaluation goes back to one. -/

namespace ExprLang

namespace Binary64

variable {x y z : Binary64}

theorem isNaN_iff : x.isNaN = true ↔ infiniteMagnitude < x.magnitude := decide_eq_true_iff

theorem isInfinite_iff : x.isInfinite = true ↔ x.magnitude = infiniteMagnitude := beq_iff_eq

/-! ### One operation -/

theorem isInfinite_nan : nan.isInfinite = false := by decide

theorem isInfinite_one : (ofNat 1).isInfinite = false := by decide +kernel

/-- Of two operands that are not both finite, one is infinite, unless one is a NaN. -/
theorem infinite_operand_of_checked {result : Binary64}
    (hnan : (x.isNaN || y.isNaN) = true → result.isInfinite = false)
    (h : x.checked y result = .ok z) (hz : z.isInfinite = true) :
    x.isInfinite = true ∨ y.isInfinite = true := by
  unfold checked at h
  split at h
  · cases h
  · next hfinite =>
    cases h
    simp only [hz, Bool.true_and, Bool.and_eq_true, isFinite_iff] at hfinite
    simp only [hz, Bool.or_eq_true, isNaN_iff] at hnan
    rw [isInfinite_iff, isInfinite_iff]
    by_contra hneither
    have hnone := mt hnan (by simp)
    omega

theorem isInfinite_add_of_nan (h : (x.isNaN || y.isNaN) = true) : (x.add y).isInfinite = false := by
  rw [add, if_pos h, isInfinite_nan]

theorem isInfinite_mul_of_nan (h : (x.isNaN || y.isNaN) = true) : (x.mul y).isInfinite = false := by
  simp only [mul, if_pos h, isInfinite_nan]

theorem isInfinite_div_of_nan (h : (x.isNaN || y.isNaN) = true) : (x.div y).isInfinite = false := by
  simp only [div, if_pos h, isInfinite_nan]

theorem isInfinite_pow_of_nan (h : (x.isNaN || y.isNaN) = true) : (x.pow y).isInfinite = false := by
  have hlimit : ¬ (x.isFinite && y.isFinite) = true := by
    simp only [Bool.or_eq_true, isNaN_iff] at h
    simp only [Bool.and_eq_true, isFinite_iff]
    omega
  rw [pow, if_neg hlimit]
  simp only [limitPow, if_pos h]
  split
  · exact isInfinite_one
  · exact isInfinite_nan

theorem negative_of_isInfinite_zeroPow (h : (x.zeroPow y).isInfinite = true) :
    y.negative = true ∧ y.isZero = false := by
  simp only [zeroPow] at h
  split at h
  · rw [isInfinite_one] at h
    cases h
  split at h
  · next hzero hnegative => exact ⟨hnegative, by simpa using hzero⟩
  · cases h

theorem infinite_operand_of_quotient (h : x.quotient y = .ok z) (hz : z.isInfinite = true) :
    x.isInfinite = true ∨ y.isInfinite = true := by
  unfold quotient at h
  split at h
  · cases h
  · exact infinite_operand_of_checked isInfinite_div_of_nan h hz

theorem infinite_operand_of_power (h : x.power y = .ok z) (hz : z.isInfinite = true) :
    x.isInfinite = true ∨ y.isInfinite = true ∨
      (x.isZero = true ∧ y.isFinite = true ∧ y.negative = true ∧ y.isZero = false) := by
  simp only [power] at h
  split at h
  · next hpower =>
    simp only [Bool.and_eq_true] at hpower
    obtain ⟨⟨hresult, hx⟩, hy⟩ := hpower
    have hfinite : x.isFinite = true := by
      have hzero : x.magnitude = 0 := beq_iff_eq.1 hx
      rw [isFinite_iff, hzero]
      decide
    rw [pow, if_pos (by rw [hfinite, hy]; rfl), if_pos hx] at hresult
    exact .inr (.inr ⟨hx, hy, negative_of_isInfinite_zeroPow hresult⟩)
  · rcases infinite_operand_of_checked isInfinite_pow_of_nan h hz with hx | hy
    · exact .inl hx
    · exact .inr (.inl hy)

end Binary64

theorem UnaryOperation.infinite_operand_of_apply {op : UnaryOperation} {a : Value} {z : Binary64}
    (h : op.apply a = .ok (.number z)) (hz : z.isInfinite = true) :
    ∃ x, a = .number x ∧ x.isInfinite = true := by
  unfold apply at h
  split at h
  · next x =>
    cases h
    exact ⟨x, rfl, hz⟩
  · cases h
  · cases h

/-- An infinite result has an infinite operand, or it is a negative power of zero. -/
theorem BinaryOperation.infinite_operand_of_apply {op : BinaryOperation} {a b : Value} {z : Binary64}
    (h : op.apply a b = .ok (.number z)) (hz : z.isInfinite = true) :
    ∃ x y, a = .number x ∧ b = .number y ∧
      (x.isInfinite = true ∨ y.isInfinite = true ∨
        (op = .exponentiation ∧ x.isZero = true ∧ y.isFinite = true ∧ y.negative = true ∧
          y.isZero = false)) := by
  have hmap {r : Except OperationFault Binary64} (hr : r.map Value.number = .ok (.number z)) :
      r = .ok z := by
    cases r with
    | error => cases hr
    | ok w =>
      cases hr
      rfl
  unfold apply at h
  split at h
  · next x y =>
    have hop := Binary64.infinite_operand_of_checked Binary64.isInfinite_add_of_nan (hmap h) hz
    exact ⟨x, y, rfl, rfl, hop.imp_right .inl⟩
  · next x y =>
    have hop := Binary64.infinite_operand_of_checked
      (Binary64.isInfinite_add_of_nan (y := y.neg)) (hmap h) hz
    exact ⟨x, y, rfl, rfl, hop.imp_right .inl⟩
  · next x y =>
    have hop := Binary64.infinite_operand_of_checked Binary64.isInfinite_mul_of_nan (hmap h) hz
    exact ⟨x, y, rfl, rfl, hop.imp_right .inl⟩
  · next x y =>
    have hop := Binary64.infinite_operand_of_quotient (hmap h) hz
    exact ⟨x, y, rfl, rfl, hop.imp_right .inl⟩
  · next x y =>
    have hop := Binary64.infinite_operand_of_power (hmap h) hz
    exact ⟨x, y, rfl, rfl, hop.imp_right (·.imp_right fun hpower => ⟨rfl, hpower⟩)⟩
  -- the other operations have no numbers as results
  all_goals cases h

/-! ### Parts of an expression -/

namespace Expr

theorem mem_parts_self (e : Expr) : e ∈ e.parts := by
  cases e <;> simp [parts]

theorem mem_parts_trans {e part inner : Expr} (hpart : part ∈ e.parts) (hinner : inner ∈ part.parts) :
    inner ∈ e.parts := by
  induction e with
  | literal l pos =>
    rw [List.mem_singleton.1 hpart] at hinner
    exact hinner
  | unary op pos operand ih =>
    rcases List.mem_append.1 hpart with hpart | hpart
    · exact List.mem_append_left _ (ih hpart)
    · rw [List.mem_singleton.1 hpart] at hinner
      exact hinner
  | binary op pos left right ihl ihr =>
    rcases List.mem_append.1 hpart with hpart | hpart
    · exact List.mem_append_left _ (ihl hpart)
    rcases List.mem_append.1 hpart with hpart | hpart
    · exact List.mem_append_right _ (List.mem_append_left _ (ihr hpart))
    · rw [List.mem_singleton.1 hpart] at hinner
      exact hinner
  | grouping operand ih =>
    rcases List.mem_append.1 hpart with hpart | hpart
    · exact List.mem_append_left _ (ih hpart)
    · rw [List.mem_singleton.1 hpart] at hinner
      exact hinner

theorem mem_inorder_of_mem_parts {e : Expr} {l : Literal} {pos : Position}
    (h : .literal l pos ∈ e.parts) : Token.literal l pos ∈ e.inorder := by
  induction e with
  | literal => simpa [parts, inorder] using h
  | unary op place operand ih =>
    have hoperand : .literal l pos ∈ operand.parts := by simpa [parts] using h
    exact List.mem_cons_of_mem _ (ih hoperand)
  | binary op place left right ihl ihr =>
    have hside : .literal l pos ∈ left.parts ∨ .literal l pos ∈ right.parts := by
      simpa [parts] using h
    rcases hside with hleft | hright
    · exact List.mem_append_left _ (ihl hleft)
    · exact List.mem_append_right _ (List.mem_cons_of_mem _ (ihr hright))
  | grouping operand ih =>
    have hoperand : .literal l pos ∈ operand.parts := by simpa [parts] using h
    exact ih hoperand

/-- A power whose base evaluates to a zero and whose exponent to a negative finite number. -/
inductive NegativePowerOfZero : Expr → Prop
  | intro {pos : Position} {base exponent : Expr} {x y : Binary64} :
    base.evaluate = .ok (.number x) → exponent.evaluate = .ok (.number y) → x.isZero = true →
      y.isFinite = true → y.negative = true → y.isZero = false →
      NegativePowerOfZero (.binary .caret pos base exponent)

end Expr

/-! ### Whole expressions -/

theorem Except.mapError_eq_ok {ε ε' α : Type} {f : ε → ε'} {r : Except ε α} {a : α}
    (h : r.mapError f = .ok a) : r = .ok a := by
  cases r with
  | error => cases h
  | ok b =>
    cases h
    rfl

theorem Typed.exists_of_evaluate_unary {op : UnaryOperator} {pos : Position} {operand : Typed}
    {v : Value} (h : (Typed.unary op pos operand).evaluate = .ok v) :
    ∃ a, operand.evaluate = .ok a ∧ op.operation.apply a = .ok v := by
  obtain ⟨a, ha, happly⟩ := Except.bind_eq_ok_iff.1 h
  exact ⟨a, ha, Except.mapError_eq_ok happly⟩

theorem Typed.exists_of_evaluate_binary {op : BinaryOperator} {pos : Position} {left right : Typed}
    {v : Value} (h : (Typed.binary op pos left right).evaluate = .ok v) :
    ∃ a b, left.evaluate = .ok a ∧ right.evaluate = .ok b ∧ op.operation.apply a b = .ok v := by
  obtain ⟨a, ha, hright⟩ := Except.bind_eq_ok_iff.1 h
  obtain ⟨b, hb, happly⟩ := Except.bind_eq_ok_iff.1 hright
  exact ⟨a, b, ha, hb, Except.mapError_eq_ok happly⟩

theorem Binds.evaluate_eq {e : Expr} {b : Typed} (h : Binds e b) : e.evaluate = b.evaluate := by
  rw [Expr.evaluate, h.bind_eq]
  rfl

theorem BinaryOperator.symbol_of_exponentiation :
    ∀ op ∈ table, op.operation = .exponentiation → op.symbol = .caret := by decide

/-- In an expression with finite literals, an infinite value of a part goes back to a negative power
of zero. -/
theorem Binds.exists_negativePowerOfZero {whole e : Expr} {b : Typed}
    (hfinite : ∀ x pos, .literal (.number x) pos ∈ whole.parts → x.isFinite = true)
    (h : Binds e b) (he : e ∈ whole.parts) {z : Binary64}
    (hvalue : b.evaluate = .ok (.number z)) (hz : z.isInfinite = true) :
    ∃ part ∈ whole.parts, part.NegativePowerOfZero := by
  induction h generalizing z with
  | @literal l pos =>
    cases l with
    | number x =>
      cases hvalue
      have hlt := Binary64.isFinite_iff.1 (hfinite z pos he)
      rw [Binary64.isInfinite_iff.1 hz] at hlt
      exact absurd hlt (Nat.lt_irrefl _)
    | identifier | string | void => cases hvalue
  | @unary s pos e b op hb hop ih =>
    obtain ⟨a, ha, happly⟩ := Typed.exists_of_evaluate_unary hvalue
    obtain ⟨x, rfl, hx⟩ := UnaryOperation.infinite_operand_of_apply happly hz
    have hoperand : e ∈ (Expr.unary s pos e).parts := by simp [Expr.parts, Expr.mem_parts_self]
    exact ih (Expr.mem_parts_trans he hoperand) ha hx
  | @binary s pos l r bl br op hl hr hop ihl ihr =>
    obtain ⟨a, b, ha, hb, happly⟩ := Typed.exists_of_evaluate_binary hvalue
    obtain ⟨x, y, rfl, rfl, hcases⟩ := BinaryOperation.infinite_operand_of_apply happly hz
    have hleft : l ∈ (Expr.binary s pos l r).parts := by simp [Expr.parts, Expr.mem_parts_self]
    have hright : r ∈ (Expr.binary s pos l r).parts := by simp [Expr.parts, Expr.mem_parts_self]
    rcases hcases with hx | hy | ⟨hpower, hzero, hyfinite, hnegative, hnonzero⟩
    · exact ihl (Expr.mem_parts_trans he hleft) ha hx
    · exact ihr (Expr.mem_parts_trans he hright) hb hy
    · obtain ⟨hrow, rfl, -, -⟩ := BinaryOperator.lookup?_eq_some hop
      rw [BinaryOperator.symbol_of_exponentiation op hrow hpower] at he
      exact ⟨_, he, .intro (hl.evaluate_eq.trans ha) (hr.evaluate_eq.trans hb) hzero hyfinite
        hnegative hnonzero⟩
  | @grouping e b hb ih =>
    have hoperand : e ∈ (Expr.grouping e).parts := by simp [Expr.parts, Expr.mem_parts_self]
    exact ih (Expr.mem_parts_trans he hoperand) hvalue hz

/-! ### Sources -/

theorem Lexeme.Spells.isFinite {pos eof place : Position} {text rest : List Char} {x : Binary64}
    (h : Spells pos eof text rest (.literal (.number x) place)) : x.isFinite = true := by
  cases h with
  | number _ _ hfinite => exact hfinite

theorem Token.isFinite_of_mem_scan {source : String} {x : Binary64} {pos : Position}
    (h : .literal (.number x) pos ∈ scan source) : x.isFinite = true := by
  obtain ⟨pieces, htokens, -, hpieces⟩ := Scanner.tokens_tile [] source.toList
  have hmem : Token.literal (.number x) pos ∈
      pieces.map Piece.token ++ [.endOfFile (.ofPrefix ([] ++ source.toList))] := by
    rw [← htokens]
    exact h
  rcases List.mem_append.1 hmem with hpiece | hend
  · obtain ⟨piece, hpiece, htoken⟩ := List.mem_map.1 hpiece
    have hspells := (hpieces piece hpiece).spells
    rw [htoken] at hspells
    exact hspells.isFinite
  · simp at hend

theorem Tree.isFinite_of_mem_parts {source : String} {x : Binary64} {pos : Position}
    (h : .literal (.number x) pos ∈ (Tree.parse (Token.scan source)).1.root.parts) :
    x.isFinite = true := by
  have hsolid := (Parse.keepsTo_parse (Token.scan source)).solid
  have hbody : Token.literal (.number x) pos ∈ Token.body (Token.scan source) :=
    hsolid.subset (List.mem_filter.2 ⟨Expr.mem_inorder_of_mem_parts h, rfl⟩)
  exact Token.isFinite_of_mem_scan ((List.takeWhile_sublist _).subset hbody)

theorem Tree.exists_negativePowerOfZero {source : String} {part : Expr}
    (hpart : part ∈ (Tree.parse (Token.scan source)).1.root.parts) {x : Binary64}
    (hvalue : part.evaluate = .ok (.number x)) (hx : x.isInfinite = true) :
    ∃ inner ∈ (Tree.parse (Token.scan source)).1.root.parts, inner.NegativePowerOfZero := by
  obtain ⟨b, hb, hbvalue⟩ := Except.bind_eq_ok_iff.1 hvalue
  exact (binds_of_bind hb).exists_negativePowerOfZero (fun _ _ => isFinite_of_mem_parts) hpart
    hbvalue hx

theorem Session.evaluate_of_run_eq_value {session : Session} {limit : Nat} {source : String}
    {v : Value} (h : (session.run limit source).1 = .value v) :
    (Tree.parse (Token.scan source)).1.root.evaluate = .ok v := by
  rw [run_eq, evaluateSource_eq] at h
  split at h
  · unfold Tree.outcome at h
    split at h
    · split at h
      · next hvalue =>
        cases h
        exact hvalue
      · cases h
    · cases h
  · cases h

/-- A run has an infinite number as its value only if some power in its tree has a zero as its base
and a negative finite number as its exponent. If no power has, then no part of the tree evaluates to
an infinite number. -/
theorem Session.infinite_only_by_power (session : Session) (limit : Nat) (source : String) :
    (∀ x, (session.run limit source).1 = .value (.number x) → x.isInfinite = true →
      ∃ part ∈ (Tree.parse (Token.scan source)).1.root.parts, part.NegativePowerOfZero) ∧
    ((∀ part ∈ (Tree.parse (Token.scan source)).1.root.parts, ¬ part.NegativePowerOfZero) →
      ∀ part ∈ (Tree.parse (Token.scan source)).1.root.parts, ∀ x,
        part.evaluate = .ok (.number x) → x.isFinite = true ∨ x.isNaN = true) := by
  refine ⟨fun x hvalue hx => ?_, fun hnone part hpart x hvalue => ?_⟩
  · exact Tree.exists_negativePowerOfZero (Expr.mem_parts_self _)
      (evaluate_of_run_eq_value hvalue) hx
  · have hx : ¬ x.isInfinite = true := by
      intro hx
      obtain ⟨inner, hinner, hpower⟩ := Tree.exists_negativePowerOfZero hpart hvalue hx
      exact hnone inner hinner hpower
    rw [Binary64.isInfinite_iff] at hx
    rw [Binary64.isFinite_iff, Binary64.isNaN_iff]
    omega

/-- The infinity passes through the group and the sign in front of it. -/
theorem Session.infinite_only_by_power_negatedGroup :
    ((Session.start ⟨false, false⟩).run 10 "-(0 ^ -1)").1 = .value (.number (.infinity true)) ∧
      ∃ part ∈ (Tree.parse (Token.scan "-(0 ^ -1)")).1.root.parts, part.NegativePowerOfZero := by
  have hrun : ((Session.start ⟨false, false⟩).run 10 "-(0 ^ -1)").1 =
      .value (.number (.infinity true)) := by decide +kernel
  exact ⟨hrun, (infinite_only_by_power (Session.start ⟨false, false⟩) 10 _).1 _ hrun (by decide)⟩

end ExprLang
