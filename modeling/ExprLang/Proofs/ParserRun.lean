import ExprLang.Expr.Parse

/-! # Runs of the parser

A run reads the tokens before the end of the source step by step and then completes what is left on
the stack. The steps that report nothing are a small automaton of their own: five kinds of tokens
move it on, and the trail of tokens plays no part in it. -/

namespace ExprLang

namespace Token

def isEndOfFile : Token → Bool
  | endOfFile _ => true
  | _ => false

/-- The tokens before the first end of file. -/
def body (tokens : List Token) : List Token := tokens.takeWhile (!·.isEndOfFile)

end Token

def TokenTrail.afterAll (trail : TokenTrail) (ts : List Token) : TokenTrail := ts.foldl after trail

/-- Whether a literal can be an operand: all but identifiers can. -/
def Literal.isOperand : Literal → Bool
  | identifier _ => false
  | _ => true

namespace Parse

/-! ### Steps, then the end -/

/-- The phase after several tokens, none of which ends the source, and the diagnostics on the way. -/
def steps (trail : TokenTrail) (phase : Phase) : List Token → Phase × List Diagnostic
  | [] => (phase, [])
  | t :: ts =>
    let now := step trail phase t
    let later := steps (trail.after t) now.1 ts
    (later.1, now.2 ++ later.2)

/-- The position where a source ends: that of its end-of-file token, or else the last known one. -/
def eofPos (trail : TokenTrail) : List Token → Position
  | [] => trail.lastPos
  | .endOfFile pos :: _ => pos
  | t :: ts => eofPos (trail.after t) ts

theorem run_eq (trail : TokenTrail) (phase : Phase) (tokens : List Token) :
    run trail phase tokens =
      let read := steps trail phase (Token.body tokens)
      let eof := eofPos trail tokens
      let last := finish (trail.afterAll (Token.body tokens)) eof read.1
      (⟨last.1, eof⟩, read.2 ++ last.2) := by
  induction tokens generalizing trail phase with
  | nil => simp [run, Token.body, steps, eofPos, TokenTrail.afterAll]
  | cons t ts ih =>
    cases t with
    | endOfFile pos =>
      simp [run, Token.body, Token.isEndOfFile, steps, eofPos, TokenTrail.afterAll]
    | symbol | keyword | literal | invalid =>
      simp only [run, ih]
      simp [Token.body, Token.isEndOfFile, steps, eofPos, TokenTrail.afterAll]

/-! ### Closing a group -/

/-- An expected closer completes everything down to the group that it closes. -/
theorem closeGroup_eq {stack : List Frame} {s : Symbol} (e : Expr)
    (h : expectedCloser? stack = some s) :
    ∃ delimiter pos rest inner, reduce 0 stack e = (.group delimiter pos :: rest, inner) ∧
      delimiter.closing = s ∧ closeGroup stack e = .operator rest (.grouping inner) := by
  induction stack generalizing e with
  | nil => simp [expectedCloser?] at h
  | cons frame stack ih =>
    cases frame with
    | unary op pos => exact ih (.unary op pos e) h
    | binary l left op pos => exact ih (.binary op pos left e) h
    | group delimiter pos => exact ⟨delimiter, pos, stack, e, rfl, Option.some.inj h, rfl⟩

/-! ### Steps without a report -/

/-- `Shifts phase t next`: the token `t` goes on with the expression. -/
inductive Shifts : Phase → Token → Phase → Prop
  | literal {stack : List Frame} {l : Literal} {pos : Position} :
    l.isOperand = true → Shifts (.operand stack) (.literal l pos) (.operator stack (.literal l pos))
  | unary {stack : List Frame} {s : Symbol} {pos : Position} :
    s.isPrefixOperator = true →
      Shifts (.operand stack) (.symbol s pos) (.operand (.unary s pos :: stack))
  | opener {stack : List Frame} {s : Symbol} {delimiter : Delimiter} {pos : Position} :
    Delimiter.ofOpening? s = some delimiter →
      Shifts (.operand stack) (.symbol s pos) (.operand (.group delimiter pos :: stack))
  | binary {stack : List Frame} {e : Expr} {s : Symbol} {pos : Position} {level : Nat} :
    s.level? = some level →
      Shifts (.operator stack e) (.symbol s pos)
        (.operand (.binary level (reduce level stack e).2 s pos :: (reduce level stack e).1))
  | closer {stack : List Frame} {e : Expr} {s : Symbol} {pos : Position} :
    expectedCloser? stack = some s →
      Shifts (.operator stack e) (.symbol s pos) (closeGroup stack e)

theorem isCloser_closing (delimiter : Delimiter) : delimiter.closing.isCloser = true := by
  cases delimiter <;> rfl

theorem isCloser_of_expectedCloser? {stack : List Frame} {s : Symbol}
    (h : expectedCloser? stack = some s) : s.isCloser = true := by
  induction stack with
  | nil => simp [expectedCloser?] at h
  | cons frame stack ih =>
    cases frame with
    | unary => exact ih h
    | binary => exact ih h
    | group delimiter =>
      have hs : delimiter.closing = s := Option.some.inj h
      rw [← hs]
      exact isCloser_closing delimiter

theorem isCloser_of_level? {s : Symbol} {level : Nat} (h : s.level? = some level) :
    s.isCloser = false := by
  cases s <;> first | rfl | simp [Symbol.level?] at h

theorem isCloser_of_isPrefixOperator {s : Symbol} (h : s.isPrefixOperator = true) :
    s.isCloser = false := by
  cases s <;> first | rfl | simp [Symbol.isPrefixOperator] at h

theorem isCloser_of_ofOpening? {s : Symbol} {delimiter : Delimiter}
    (h : Delimiter.ofOpening? s = some delimiter) : s.isCloser = false := by
  cases s <;> first | rfl | simp [Delimiter.ofOpening?] at h

theorem isPrefixOperator_of_ofOpening? {s : Symbol} {delimiter : Delimiter}
    (h : Delimiter.ofOpening? s = some delimiter) : s.isPrefixOperator = false := by
  cases s <;> first | rfl | simp [Delimiter.ofOpening?] at h

/-- No closer is stray that closes the innermost open group, and nothing but closers is. -/
theorem stray?_eq_none_iff (stack : List Frame) (s : Symbol) (pos : Position) :
    stray? stack (.symbol s pos) = none ↔ s.isCloser = false ∨ expectedCloser? stack = some s := by
  cases hc : s.isCloser <;> simp [stray?, hc]

/-! ### What a step is, by phase -/

theorem step_operand_of_stray {stack : List Frame} {t : Token} {d : Diagnostic}
    (h : stray? stack t = some d) (trail : TokenTrail) :
    step trail (.operand stack) t = (.operand stack, [d]) := by
  simp [step, Phase.stack, h]

theorem step_operand {stack : List Frame} {t : Token} (h : stray? stack t = none)
    (trail : TokenTrail) : step trail (.operand stack) t = operandStep trail stack t := by
  simp [step, Phase.stack, h]

theorem step_operator_of_stray {stack : List Frame} {t : Token} {d : Diagnostic}
    (h : stray? stack t = some d) (trail : TokenTrail) (e : Expr) :
    step trail (.operator stack e) t = (.operator stack e, [d]) := by
  simp [step, Phase.stack, h]

theorem step_operator {stack : List Frame} {t : Token} (h : stray? stack t = none)
    (trail : TokenTrail) (e : Expr) :
    step trail (.operator stack e) t = operatorStep trail stack e t := by
  simp [step, Phase.stack, h]

theorem step_eq_of_shifts {phase next : Phase} {t : Token} (h : Shifts phase t next)
    (trail : TokenTrail) : step trail phase t = (next, []) := by
  cases h with
  | @literal stack l pos hl =>
    cases l with
    | identifier => simp [Literal.isOperand] at hl
    | string | number | void => rfl
  | @unary stack s pos hs =>
    have hstray := (stray?_eq_none_iff stack s pos).2
      (.inl (isCloser_of_isPrefixOperator hs))
    rw [step_operand hstray]
    simp [operandStep, hs]
  | @opener stack s delimiter pos hs =>
    have hstray := (stray?_eq_none_iff stack s pos).2
      (.inl (isCloser_of_ofOpening? hs))
    rw [step_operand hstray]
    simp [operandStep, isPrefixOperator_of_ofOpening? hs, hs]
  | @binary stack e s pos level hs =>
    have hcloser := isCloser_of_level? hs
    have hstray := (stray?_eq_none_iff stack s pos).2 (.inl hcloser)
    -- an operator is no closer, so it closes no group either
    have hexpected : expectedCloser? stack ≠ some s := by
      intro hs
      rw [isCloser_of_expectedCloser? hs] at hcloser
      cases hcloser
    rw [step_operator hstray]
    simp [operatorStep, hexpected, hs]
  | @closer stack e s pos hs =>
    have hstray := (stray?_eq_none_iff stack s pos).2 (.inr hs)
    rw [step_operator hstray]
    simp [operatorStep, hs]

theorem trailingStep_ne_nil (trail : TokenTrail) (root : Expr) {t : Token} (h : t.fault? = none) :
    (trailingStep trail root t).2 ≠ [] := by
  cases t with
  | invalid fault => simp [Token.fault?] at h
  | symbol | keyword | literal | endOfFile => simp [trailingStep]

theorem leave_ne_nil (trail : TokenTrail) (stack : List Frame) (e : Expr) {t : Token}
    (h : t.fault? = none) : (leave trail stack e t).2 ≠ [] := by
  intro hnil
  simp only [leave, List.append_eq_nil_iff] at hnil
  exact trailingStep_ne_nil trail _ h hnil.2

theorem shifts_of_operatorStep {trail : TokenTrail} {stack : List Frame} {e : Expr} {t : Token}
    (ht : t.fault? = none) (h : (operatorStep trail stack e t).2 = []) :
    Shifts (.operator stack e) t (operatorStep trail stack e t).1 := by
  cases t with
  | symbol s pos =>
    by_cases hs : expectedCloser? stack = some s
    · simp only [operatorStep, hs, if_true]
      exact .closer hs
    · cases hlevel : s.level? with
      | none =>
        simp only [operatorStep, hs, if_false, hlevel] at h
        exact absurd h (leave_ne_nil trail stack e rfl)
      | some level =>
        simp only [operatorStep, hs, if_false, hlevel]
        exact .binary hlevel
  | keyword | literal | endOfFile | invalid => exact absurd h (leave_ne_nil trail stack e ht)

theorem shifts_of_operandStep {trail : TokenTrail} {stack : List Frame} {t : Token}
    (ht : t.fault? = none) (h : (operandStep trail stack t).2 = []) :
    Shifts (.operand stack) t (operandStep trail stack t).1 := by
  cases t with
  | literal l pos =>
    cases l with
    | identifier => simp [operandStep] at h
    | string | number | void => exact .literal rfl
  | symbol s pos =>
    by_cases hprefix : s.isPrefixOperator = true
    · simp only [operandStep, hprefix, if_true]
      exact .unary hprefix
    · cases hopening : Delimiter.ofOpening? s with
      | some delimiter =>
        simp only [operandStep, hprefix, Bool.false_eq_true, if_false, hopening]
        exact .opener hopening
      | none =>
        simp only [operandStep, hprefix, Bool.false_eq_true, if_false, hopening] at h
        split at h <;> simp at h
  | keyword | endOfFile => simp [operandStep] at h
  | invalid fault => simp [Token.fault?] at ht

/-- A step that reports nothing goes on with the expression, unless the expression is over. -/
theorem shifts_of_step {trail : TokenTrail} {phase next : Phase} {t : Token}
    (hphase : ∀ root reported, phase ≠ .trailing root reported) (ht : t.fault? = none)
    (h : step trail phase t = (next, [])) : Shifts phase t next := by
  cases phase with
  | trailing root reported => exact absurd rfl (hphase root reported)
  | operand stack =>
    cases hstray : stray? stack t with
    | some d =>
      rw [step_operand_of_stray hstray] at h
      simp at h
    | none =>
      rw [step_operand hstray] at h
      have hshift := shifts_of_operandStep ht (congrArg Prod.snd h)
      rwa [h] at hshift
  | operator stack e =>
    cases hstray : stray? stack t with
    | some d =>
      rw [step_operator_of_stray hstray] at h
      simp at h
    | none =>
      rw [step_operator hstray] at h
      have hshift := shifts_of_operatorStep ht (congrArg Prod.snd h)
      rwa [h] at hshift

theorem Shifts.next_ne_trailing {phase next : Phase} {t : Token} (h : Shifts phase t next)
    (root : Expr) (reported : Bool) : next ≠ .trailing root reported := by
  cases h with
  | literal | unary | opener | binary => simp
  | @closer stack e s pos hs =>
    obtain ⟨_, _, _, _, _, _, hclose⟩ := closeGroup_eq e hs
    simp [hclose]

/-! ### Runs without a report -/

/-- `ShiftsAll phase ts next`: the tokens `ts` go on with the expression, one after the other. -/
inductive ShiftsAll : Phase → List Token → Phase → Prop
  | nil {phase : Phase} : ShiftsAll phase [] phase
  | cons {phase mid next : Phase} {t : Token} {ts : List Token} :
    Shifts phase t mid → ShiftsAll mid ts next → ShiftsAll phase (t :: ts) next

theorem ShiftsAll.append {phase mid next : Phase} {us vs : List Token} (hu : ShiftsAll phase us mid)
    (hv : ShiftsAll mid vs next) : ShiftsAll phase (us ++ vs) next := by
  induction hu with
  | nil => exact hv
  | cons hshift _ ih => exact .cons hshift (ih hv)

theorem Shifts.all {phase next : Phase} {t : Token} (h : Shifts phase t next) :
    ShiftsAll phase [t] next :=
  .cons h .nil

theorem ShiftsAll.split {phase next : Phase} {us vs : List Token}
    (h : ShiftsAll phase (us ++ vs) next) :
    ∃ mid, ShiftsAll phase us mid ∧ ShiftsAll mid vs next := by
  induction us generalizing phase with
  | nil => exact ⟨phase, .nil, h⟩
  | cons t us ih =>
    cases h with
    | cons hshift hrest =>
      obtain ⟨mid, hus, hvs⟩ := ih hrest
      exact ⟨mid, .cons hshift hus, hvs⟩

/-- What every such step keeps holds after any number of them: `P` speaks of the phase and of the tokens
read so far. -/
theorem shiftsAll_invariant {P : Phase → List Token → Prop}
    (hshift : ∀ {phase t next us}, P phase us → Shifts phase t next → P next (us ++ [t]))
    {phase next : Phase} {us ts : List Token} (h : P phase us) (hshifts : ShiftsAll phase ts next) :
    P next (us ++ ts) := by
  induction hshifts generalizing us with
  | nil => simpa using h
  | cons hfirst _ ih =>
    have hrest := ih (hshift h hfirst)
    simpa using hrest

theorem ShiftsAll.next_ne_trailing {phase next : Phase} {ts : List Token}
    (h : ShiftsAll phase ts next) (hphase : ∀ root reported, phase ≠ .trailing root reported) :
    ∀ root reported, next ≠ .trailing root reported := by
  induction h with
  | nil => exact hphase
  | cons hshift _ ih => exact ih hshift.next_ne_trailing

theorem steps_eq_of_shiftsAll {phase next : Phase} {ts : List Token} (h : ShiftsAll phase ts next)
    (trail : TokenTrail) : steps trail phase ts = (next, []) := by
  induction h generalizing trail with
  | nil => rfl
  | cons hshift _ ih =>
    simp only [steps, step_eq_of_shifts hshift]
    rw [ih]
    rfl

theorem shiftsAll_of_steps {trail : TokenTrail} {phase next : Phase} {ts : List Token}
    (hphase : ∀ root reported, phase ≠ .trailing root reported)
    (hvalid : ∀ t ∈ ts, t.fault? = none) (h : steps trail phase ts = (next, [])) :
    ShiftsAll phase ts next := by
  induction ts generalizing trail phase with
  | nil =>
    obtain rfl : phase = next := congrArg Prod.fst h
    exact .nil
  | cons t ts ih =>
    simp only [steps, Prod.mk.injEq, List.append_eq_nil_iff] at h
    obtain ⟨hnext, hnow, hlater⟩ := h
    have hshift := shifts_of_step hphase (hvalid t List.mem_cons_self) (Prod.ext rfl hnow)
    exact .cons hshift (ih hshift.next_ne_trailing
      (fun u hu => hvalid u (List.mem_cons_of_mem t hu)) (Prod.ext hnext hlater))

theorem parse_eq_of_shiftsAll {tokens : List Token} {stack : List Frame} {e : Expr}
    (h : ShiftsAll (.operand []) (Token.body tokens) (.operator stack e)) :
    Tree.parse tokens =
      (⟨(unwind stack e).1, eofPos TokenTrail.start tokens⟩, (unwind stack e).2) := by
  unfold Tree.parse
  rw [run_eq, steps_eq_of_shiftsAll h]
  rfl

theorem shiftsAll_of_parse {tokens : List Token}
    (hvalid : ∀ t ∈ Token.body tokens, t.fault? = none) (h : (Tree.parse tokens).2 = []) :
    ∃ stack e, ShiftsAll (.operand []) (Token.body tokens) (.operator stack e) ∧
      (unwind stack e).2 = [] := by
  unfold Tree.parse at h
  rw [run_eq] at h
  obtain ⟨hsteps, hfinish⟩ := List.append_eq_nil_iff.1 h
  rcases hread : steps TokenTrail.start (.operand []) (Token.body tokens) with ⟨phase, ds⟩
  rw [hread] at hsteps hfinish
  obtain rfl : ds = [] := hsteps
  have hshifts := shiftsAll_of_steps (by simp) hvalid hread
  -- a missing operand is reported at the end
  cases phase with
  | operand stack => simp [finish] at hfinish
  | operator stack e => exact ⟨stack, e, hshifts, hfinish⟩
  | trailing root reported => exact absurd rfl (hshifts.next_ne_trailing (by simp) root reported)

end Parse

end ExprLang
