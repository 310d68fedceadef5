import ExprLang.Proofs.ParserRun

/-! # What a token can do

Every token does one of ten things to the parser. It goes on with the expression; it is a stray
closer and is skipped; it stands where an operand is missing, and either is used up by that or goes
on after a placeholder; it ends the expression; or it comes after the end. An invalid token does the
same as others, but nothing is reported about it. Each invariant of the parser is a look at these
moves. -/

namespace ExprLang

namespace Parse

def unexpectedToken (pos : Position) (t : Token) : Diagnostic :=
  .parseError pos ("unexpected token `" ++ t.lexeme ++ "`") (some t.lexeme)

/-- `Moves trail phase t next ds`: the token `t` leads from `phase` to `next`, and `ds` is reported. -/
inductive Moves (trail : TokenTrail) : Phase → Token → Phase → List Diagnostic → Prop
  | shift {phase next : Phase} {t : Token} : Shifts phase t next → Moves trail phase t next []
  | stray {phase : Phase} {s : Symbol} {pos : Position} :
    (∀ root, phase ≠ .trailing root true) → s.isCloser = true →
      expectedCloser? phase.stack ≠ some s →
      Moves trail phase (.symbol s pos) phase [.unmatchedDelimiter pos s.text]
  /-- The token is used up in place of the missing operand. -/
  | misplaced {stack : List Frame} {t : Token} {pos : Position} :
    t.pos? = some pos → stray? stack t = none → (∀ next, ¬ Shifts (.operand stack) t next) →
      (∀ e next, ¬ Shifts (.operator stack e) t next) →
      Moves trail (.operand stack) t (.operator stack (.placeholder pos))
        [expectedExpression trail pos (some t)]
  /-- The token goes on after a placeholder for the missing operand. -/
  | omitted {stack : List Frame} {t : Token} {pos : Position} {next : Phase} :
    t.pos? = some pos → (∀ next, ¬ Shifts (.operand stack) t next) →
      Shifts (.operator stack (.placeholder pos)) t next →
      Moves trail (.operand stack) t next [expectedExpression trail pos (some t)]
  | invalidOperand {stack : List Frame} {fault : Diagnostic} :
    Moves trail (.operand stack) (.invalid fault) (.operator stack (.placeholder trail.lastPos)) []
  | leave {stack : List Frame} {e : Expr} {t : Token} {pos : Position} :
    t.pos? = some pos → stray? stack t = none → (∀ next, ¬ Shifts (.operator stack e) t next) →
      Moves trail (.operator stack e) t (.trailing (unwind stack e).1 true)
        ((unwind stack e).2 ++ [unexpectedToken pos t])
  | leaveInvalid {stack : List Frame} {e : Expr} {fault : Diagnostic} :
    Moves trail (.operator stack e) (.invalid fault) (.trailing (unwind stack e).1 false)
      (unwind stack e).2
  | unexpected {root : Expr} {t : Token} {pos : Position} :
    t.pos? = some pos → stray? [] t = none →
      Moves trail (.trailing root false) t (.trailing root true) [unexpectedToken pos t]
  | invalidTrailing {root : Expr} {fault : Diagnostic} :
    Moves trail (.trailing root false) (.invalid fault) (.trailing root false) []
  | past {root : Expr} {t : Token} : Moves trail (.trailing root true) t (.trailing root true) []

/-! ### Tokens that do not go on with an expression -/

theorem not_shifts_operator_symbol {stack : List Frame} {s : Symbol}
    (hexpected : expectedCloser? stack ≠ some s) (hlevel : s.level? = none) (e : Expr)
    (pos : Position) (next : Phase) : ¬ Shifts (.operator stack e) (.symbol s pos) next := by
  intro h
  cases h with
  | binary h => simp [hlevel] at h
  | closer h => exact hexpected h

theorem not_shifts_operator {stack : List Frame} {t : Token} (ht : ∀ s pos, t ≠ .symbol s pos)
    (e : Expr) (next : Phase) : ¬ Shifts (.operator stack e) t next := by
  intro h
  cases h with
  | binary => exact ht _ _ rfl
  | closer => exact ht _ _ rfl

theorem not_shifts_operand_symbol {s : Symbol} (hunary : ¬ s.isPrefixOperator = true)
    (hopening : Delimiter.ofOpening? s = none) (stack : List Frame) (pos : Position)
    (next : Phase) : ¬ Shifts (.operand stack) (.symbol s pos) next := by
  intro h
  cases h with
  | unary h => exact hunary h
  | opener h => simp [hopening] at h

/-! ### Every step is a move -/

theorem moves_operatorStep {stack : List Frame} {t : Token} (hstray : stray? stack t = none)
    (trail : TokenTrail) (e : Expr) :
    Moves trail (.operator stack e) t (operatorStep trail stack e t).1
      (operatorStep trail stack e t).2 := by
  cases t with
  | symbol s pos =>
    by_cases hexpected : expectedCloser? stack = some s
    · simp only [operatorStep, hexpected, if_true]
      exact .shift (.closer hexpected)
    · cases hlevel : s.level? with
      | some level =>
        simp only [operatorStep, hexpected, if_false, hlevel]
        exact .shift (.binary hlevel)
      | none =>
        simp only [operatorStep, hexpected, if_false, hlevel]
        exact .leave rfl hstray (not_shifts_operator_symbol hexpected hlevel e pos)
  | keyword | literal | endOfFile =>
    exact .leave rfl hstray (not_shifts_operator (by simp) e)
  | invalid fault =>
    simp only [operatorStep, leave, trailingStep, List.append_nil]
    exact .leaveInvalid

/-- The expected closer and a two-sided operator go on after any operand. -/
theorem operatorStep_quiet {stack : List Frame} {s : Symbol}
    (h : (decide (expectedCloser? stack = some s) || s.level?.isSome) = true) (trail : TokenTrail)
    (e : Expr) (pos : Position) : (operatorStep trail stack e (.symbol s pos)).2 = [] := by
  by_cases hexpected : expectedCloser? stack = some s
  · simp [operatorStep, hexpected]
  · simp only [hexpected, decide_false, Bool.false_or] at h
    obtain ⟨level, hlevel⟩ := Option.isSome_iff_exists.1 h
    simp [operatorStep, hexpected, hlevel]

theorem moves_operandStep {stack : List Frame} {t : Token} (hstray : stray? stack t = none)
    (trail : TokenTrail) :
    Moves trail (.operand stack) t (operandStep trail stack t).1 (operandStep trail stack t).2 := by
  cases t with
  | literal l pos =>
    cases l with
    | identifier name =>
      refine .misplaced rfl hstray ?_ (not_shifts_operator (by simp))
      intro next h
      cases h with
      | literal h => simp [Literal.isOperand] at h
    | string | number | void => exact .shift (.literal rfl)
  | symbol s pos =>
    by_cases hunary : s.isPrefixOperator = true
    · simp only [operandStep, hunary, if_true]
      exact .shift (.unary hunary)
    · cases hopening : Delimiter.ofOpening? s with
      | some delimiter =>
        simp only [operandStep, hunary, Bool.false_eq_true, if_false, hopening]
        exact .shift (.opener hopening)
      | none =>
        have hoperand := not_shifts_operand_symbol hunary hopening stack pos
        simp only [operandStep, hunary, Bool.false_eq_true, if_false, hopening]
        split
        · next hgoes =>
          have hquiet := operatorStep_quiet hgoes trail (.placeholder pos) pos
          have hshift := shifts_of_operatorStep rfl hquiet
          simp only [hquiet]
          exact .omitted rfl hoperand hshift
        · next hnot =>
          simp only [Bool.or_eq_true, decide_eq_true_eq, not_or, Bool.not_eq_true,
            Option.isSome_eq_false_iff, Option.isNone_iff_eq_none] at hnot
          exact .misplaced rfl hstray hoperand
            fun e => not_shifts_operator_symbol hnot.1 hnot.2 e pos
  | keyword | endOfFile =>
    refine .misplaced rfl hstray ?_ (not_shifts_operator (by simp))
    intro next h
    cases h
  | invalid fault => exact .invalidOperand

theorem stray?_eq_some {stack : List Frame} {t : Token} {d : Diagnostic}
    (h : stray? stack t = some d) :
    ∃ s pos, t = .symbol s pos ∧ s.isCloser = true ∧ expectedCloser? stack ≠ some s ∧
      d = .unmatchedDelimiter pos s.text := by
  cases t with
  | symbol s pos =>
    simp only [stray?, Option.ite_none_right_eq_some, Bool.and_eq_true, bne_iff_ne,
      Option.some.injEq] at h
    exact ⟨s, pos, rfl, h.1.1, h.1.2, h.2.symm⟩
  | keyword | literal | endOfFile | invalid => simp [stray?] at h

theorem moves_of_stray (trail : TokenTrail) (phase : Phase)
    (hphase : ∀ root, phase ≠ .trailing root true) {t : Token} {d : Diagnostic}
    (hstray : stray? phase.stack t = some d) : Moves trail phase t phase [d] := by
  obtain ⟨s, pos, rfl, hcloser, hexpected, rfl⟩ := stray?_eq_some hstray
  exact .stray hphase hcloser hexpected

theorem moves_trailingStep {t : Token} (hstray : stray? [] t = none) (trail : TokenTrail)
    (root : Expr) :
    Moves trail (.trailing root false) t (trailingStep trail root t).1
      (trailingStep trail root t).2 := by
  cases t with
  | symbol | keyword | literal | endOfFile => exact .unexpected rfl hstray
  | invalid => exact .invalidTrailing

/-- A step does one of the moves. -/
theorem moves_step (trail : TokenTrail) (phase : Phase) (t : Token) :
    Moves trail phase t (step trail phase t).1 (step trail phase t).2 := by
  cases phase with
  | operand stack =>
    cases hstray : stray? stack t with
    | some d =>
      rw [step_operand_of_stray hstray]
      exact moves_of_stray trail (.operand stack) (by simp) hstray
    | none =>
      rw [step_operand hstray]
      exact moves_operandStep hstray trail
  | operator stack e =>
    cases hstray : stray? stack t with
    | some d =>
      rw [step_operator_of_stray hstray]
      exact moves_of_stray trail (.operator stack e) (by simp) hstray
    | none =>
      rw [step_operator hstray]
      exact moves_operatorStep hstray trail e
  | trailing root reported =>
    cases reported with
    | true => exact .past
    | false =>
      cases hstray : stray? [] t with
      | some d =>
        have hstep : step trail (.trailing root false) t = (.trailing root false, [d]) := by
          simp [step, Phase.stack, hstray]
        rw [hstep]
        exact moves_of_stray trail (.trailing root false) (by simp) hstray
      | none =>
        have hstep : step trail (.trailing root false) t = trailingStep trail root t := by
          simp [step, Phase.stack, hstray]
        rw [hstep]
        exact moves_trailingStep hstray trail root

/-! ### Invariants -/

/-- What holds of a stack and of the operand in hand still holds when frames are completed, if it is
kept by completing one of them. -/
theorem reduce_invariant {P : List Frame → Expr → Prop}
    (hunary : ∀ op pos stack e, P (.unary op pos :: stack) e → P stack (.unary op pos e))
    (hbinary : ∀ l left op pos stack e, P (.binary l left op pos :: stack) e →
      P stack (.binary op pos left e))
    (level : Nat) {stack : List Frame} {e : Expr} (h : P stack e) :
    P (reduce level stack e).1 (reduce level stack e).2 := by
  fun_induction reduce level stack e with
  | case1 op pos stack e ih => exact ih (hunary op pos stack e h)
  | case2 l left op pos stack e hle ih => exact ih (hbinary l left op pos stack e h)
  | case3 | case4 => exact h

/-- What every move keeps holds after any number of tokens: `P` speaks of the phase, of the tokens read
so far and of the diagnostics reported so far. -/
theorem steps_invariant {P : Phase → List Token → List Diagnostic → Prop}
    (hmove : ∀ {trail phase t next ds us es}, P phase us es → Moves trail phase t next ds →
      P next (us ++ [t]) (es ++ ds))
    {phase : Phase} (us : List Token) (es : List Diagnostic) (h : P phase us es)
    (trail : TokenTrail) (ts : List Token) :
    P (steps trail phase ts).1 (us ++ ts) (es ++ (steps trail phase ts).2) := by
  induction ts generalizing trail phase us es with
  | nil => simpa [steps] using h
  | cons t ts ih =>
    have hnext := ih _ _ (hmove h (moves_step trail phase t)) (trail.after t)
    simpa [steps] using hnext

end Parse

end ExprLang
