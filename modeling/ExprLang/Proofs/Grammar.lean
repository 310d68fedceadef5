import ExprLang.Expr.Grammar
import ExprLang.Proofs.ParserRun
import Mathlib.Data.Nat.Init

/-! # The parser and the grammar

The parser reports nothing about exactly the token lists that the grammar derives, and its tree is
then the one that the grammar assigns.

In one direction, the stack is read as the part of a derivation that has been seen so far: every
frame stands for the tokens it was made from and says which level of the grammar has to come next.
In the other direction, a derivation is followed token by token; what its operators leave on the
stack is put together when a weaker operator, a closer or the end arrives. -/

namespace ExprLang

theorem DiagnosticLog.append_eq_self_iff {log : DiagnosticLog} {ds : List Diagnostic} :
    log.append ds = log ↔ ds = [] := by
  cases log with
  | mk entries => simp [DiagnosticLog.append]

/-! ### The tables of the parser and of the grammar -/

theorem Symbol.level?_eq_some_iff {s : Symbol} {n : Nat} :
    s.level? = some n ↔ s ∈ Grammar.operators n := by
  match n with
  | 0 | 1 | 2 | 3 | 4 => cases s <;> simp [Symbol.level?, Grammar.operators]
  | n + 5 =>
    cases s <;> simp [Symbol.level?, Grammar.operators]

theorem Symbol.isPrefixOperator_iff {s : Symbol} :
    s.isPrefixOperator = true ↔ s ∈ Grammar.unaryOperators := by
  cases s <;> simp [Symbol.isPrefixOperator, Grammar.unaryOperators]

theorem Delimiter.ofOpening?_eq_some_iff {s : Symbol} {delimiter : Delimiter} :
    Delimiter.ofOpening? s = some delimiter ↔ s = delimiter.opening := by
  cases delimiter <;> cases s <;> simp [Delimiter.ofOpening?, Delimiter.opening]

theorem Delimiter.mem_delimiters (delimiter : Delimiter) :
    (delimiter.opening, delimiter.closing) ∈ Grammar.delimiters := by
  cases delimiter <;> simp [Grammar.delimiters, Delimiter.opening, Delimiter.closing]

theorem Delimiter.exists_of_mem_delimiters {opener closer : Symbol}
    (h : (opener, closer) ∈ Grammar.delimiters) :
    ∃ delimiter : Delimiter, opener = delimiter.opening ∧ closer = delimiter.closing := by
  simp only [Grammar.delimiters, List.mem_cons, Prod.mk.injEq, List.not_mem_nil, or_false] at h
  rcases h with ⟨rfl, rfl⟩ | ⟨rfl, rfl⟩
  · exact ⟨.paren, rfl, rfl⟩
  · exact ⟨.curly, rfl, rfl⟩

theorem Grammar.lt_five_of_mem_operators {s : Symbol} {n : Nat} (h : s ∈ Grammar.operators n) :
    n < 5 := by
  match n with
  | 0 | 1 | 2 | 3 | 4 => omega
  | n + 5 => simp [Grammar.operators] at h

theorem Derives.loosen {m n : Nat} {ts : List Token} {e : Expr} (h : Derives m ts e) (hm : m ≤ 6)
    (hn : n ≤ m) : Derives n ts e := by
  induction m, hn using Nat.le_induction with
  | base => exact h
  | succ m hn ih => exact ih (.tighter (by omega) h) (by omega)

namespace Parse

/-! ### From the stack to a derivation -/

/-- `Pending stack us n`: the frames of the stack stand for the tokens `us`, and an expression of
level `n` can come next. -/
inductive Pending : List Frame → List Token → Nat → Prop
  | nil : Pending [] [] 0
  | unary {stack : List Frame} {us : List Token} {n : Nat} {s : Symbol} {pos : Position} :
    Pending stack us n → s ∈ Grammar.unaryOperators →
      Pending (.unary s pos :: stack) (us ++ [.symbol s pos]) 5
  | binary {stack : List Frame} {us ls : List Token} {n level : Nat} {left : Expr} {s : Symbol}
      {pos : Position} :
    Pending stack us n → n ≤ level → s ∈ Grammar.operators level → Derives level ls left →
      Pending (.binary level left s pos :: stack) (us ++ (ls ++ [.symbol s pos])) (level + 1)
  | group {stack : List Frame} {us : List Token} {n : Nat} {delimiter : Delimiter}
      {pos : Position} :
    Pending stack us n →
      Pending (.group delimiter pos :: stack) (us ++ [.symbol delimiter.opening pos]) 0

theorem Pending.le_five {stack : List Frame} {us : List Token} {n : Nat} (h : Pending stack us n) :
    n ≤ 5 := by
  cases h with
  | nil | group => omega
  | unary => omega
  | binary _ _ hs _ => exact Grammar.lt_five_of_mem_operators hs

/-- Completing operators keeps the tokens and builds the derivation of their expression. -/
theorem Pending.reduce {stack : List Frame} {us ws : List Token} {n m : Nat} {e : Expr}
    (h : Pending stack us n) (he : Derives m ws e) (hm : m ≤ 6) (hn : n ≤ m) (level : Nat)
    (hlevel : level ≤ 5) (hlm : level ≤ m) :
    ∃ us' ws' n', us' ++ ws' = us ++ ws ∧ Pending (Parse.reduce level stack e).1 us' n' ∧
      n' ≤ level ∧ Derives level ws' (Parse.reduce level stack e).2 := by
  induction h generalizing ws m e with
  | nil => exact ⟨[], ws, 0, rfl, .nil, Nat.zero_le level, he.loosen hm hlm⟩
  | group h _ => exact ⟨_, ws, 0, rfl, .group h, Nat.zero_le level, he.loosen hm hlm⟩
  -- a prefix operator is completed whatever the level
  | @unary stack us n s pos h hs ih =>
    have hunary : Derives 5 (.symbol s pos :: ws) (.unary s pos e) := .unary hs (he.loosen hm hn)
    obtain ⟨us', ws', n', happ, hrest⟩ := ih hunary (by omega) h.le_five hlevel
    exact ⟨us', ws', n', by simp [happ], hrest⟩
  | @binary stack us ls n l left s pos h hl hs hleft ih =>
    have hfive := Grammar.lt_five_of_mem_operators hs
    by_cases hle : level ≤ l
    · have hbinary : Derives l (ls ++ .symbol s pos :: ws) (.binary s pos left e) :=
        .binary hs hleft (he.loosen hm hn)
      obtain ⟨us', ws', n', happ, hrest⟩ := ih hbinary (by omega) hl hle
      refine ⟨us', ws', n', by simp [happ], ?_⟩
      simpa only [Parse.reduce, hle, if_true] using hrest
    -- a weaker operator stays and waits for more of its right operand
    · refine ⟨_, ws, l + 1, rfl, ?_⟩
      simp only [Parse.reduce, hle, if_false]
      exact ⟨.binary h hl hs hleft, by omega, he.loosen hm hlm⟩

theorem reduce_zero_of_unwind {stack : List Frame} {e : Expr} (h : (unwind stack e).2 = []) :
    Parse.reduce 0 stack e = ([], (unwind stack e).1) := by
  induction stack generalizing e with
  | nil => rfl
  | cons frame stack ih =>
    cases frame with
    | unary op pos => exact ih h
    | binary l left op pos => exact ih h
    -- an open group would be reported
    | group delimiter pos => simp [unwind] at h

/-- `Reads phase us`: the phase holds what a derivation makes of the tokens `us`. -/
def Reads : Phase → List Token → Prop
  | .operand stack, us => ∃ n, Pending stack us n
  | .operator stack e, us =>
    ∃ n vs ws, vs ++ ws = us ∧ Pending stack vs n ∧ Derives 6 ws e
  | .trailing _ _, _ => False

theorem derives_literal {l : Literal} (h : l.isOperand = true) (pos : Position) :
    Derives 6 [.literal l pos] (.literal l pos) := by
  cases l with
  | identifier => simp [Literal.isOperand] at h
  | string => exact .string
  | number => exact .number
  | void => exact .void

theorem Reads.shift {phase next : Phase} {us : List Token} {t : Token} (h : Reads phase us)
    (hshift : Shifts phase t next) : Reads next (us ++ [t]) := by
  cases hshift with
  | @literal stack l pos hl =>
    obtain ⟨n, hpending⟩ := h
    exact ⟨n, us, _, rfl, hpending, derives_literal hl pos⟩
  | @unary stack s pos hs =>
    obtain ⟨n, hpending⟩ := h
    exact ⟨5, .unary hpending (Symbol.isPrefixOperator_iff.1 hs)⟩
  | @opener stack s delimiter pos hs =>
    obtain ⟨n, hpending⟩ := h
    obtain rfl := Delimiter.ofOpening?_eq_some_iff.1 hs
    exact ⟨0, .group hpending⟩
  | @binary stack e s pos level hs =>
    obtain ⟨n, vs, ws, rfl, hpending, he⟩ := h
    have hmem := Symbol.level?_eq_some_iff.1 hs
    have hlevel := Grammar.lt_five_of_mem_operators hmem
    have hn := hpending.le_five
    obtain ⟨us', ws', n', happ, hrest, hn', hleft⟩ :=
      hpending.reduce he (by omega) (by omega) level (by omega) (by omega)
    rw [← happ, List.append_assoc]
    exact ⟨level + 1, .binary hrest hn' hmem hleft⟩
  | @closer stack e s pos hs =>
    obtain ⟨n, vs, ws, rfl, hpending, he⟩ := h
    have hn := hpending.le_five
    obtain ⟨us', ws', n', happ, hrest, -, hinner⟩ :=
      hpending.reduce he (by omega) (by omega) 0 (by omega) (by omega)
    obtain ⟨delimiter, p, rest, inner, hreduce, rfl, hclose⟩ := closeGroup_eq e hs
    rw [hreduce] at hrest hinner
    rw [hclose]
    -- with everything completed, the group that the closer is for is on top
    cases hrest with
    | @group _ us'' n'' _ _ hrest =>
      have hgroup : Derives 6 (.symbol delimiter.opening p :: (ws' ++ [.symbol delimiter.closing pos]))
          (.grouping inner) := .group delimiter.mem_delimiters hinner
      exact ⟨n'', us'', _, by simp [← happ], hrest, hgroup⟩

theorem derives_of_shiftsAll {ts : List Token} {stack : List Frame} {e : Expr}
    (h : ShiftsAll (.operand []) ts (.operator stack e)) (hunwind : (unwind stack e).2 = []) :
    Derives 0 ts (unwind stack e).1 := by
  have hstart : Reads (.operand []) [] := ⟨0, .nil⟩
  obtain ⟨n, vs, ws, happ, hpending, he⟩ := shiftsAll_invariant Reads.shift hstart h
  have hn := hpending.le_five
  obtain ⟨us', ws', n', happ', hrest, -, hroot⟩ :=
    hpending.reduce he (by omega) (by omega) 0 (by omega) (by omega)
  rw [reduce_zero_of_unwind hunwind] at hrest hroot
  cases hrest with
  | nil =>
    have hts : ws' = ts := by simpa [happ] using happ'
    rwa [hts] at hroot

/-! ### From a derivation to the stack -/

/-- A frame that an expression of level `n` may leave behind: it waits for its right operand. -/
def Frame.IsTight (n : Nat) : Frame → Prop
  | .unary _ _ => True
  | .binary level _ _ _ => n ≤ level
  | .group _ _ => False

theorem Frame.IsTight.mono {m n : Nat} {frame : Frame} (h : frame.IsTight n) (hm : m ≤ n) :
    frame.IsTight m := by
  cases frame with
  | unary => trivial
  | binary => exact Nat.le_trans hm h
  | group => exact h

/-- A stack on which an expression of level `n` is read to its end: nothing on it takes an operand
away from the operators of that level. -/
def Waits (n : Nat) : List Frame → Prop
  | [] => True
  | .unary _ _ :: _ => 5 ≤ n
  | .binary level _ _ _ :: _ => level < n
  | .group _ _ :: _ => True

theorem Waits.mono {m n : Nat} {stack : List Frame} (h : Waits m stack) (hm : m ≤ n) :
    Waits n stack := by
  cases stack with
  | nil => trivial
  | cons frame stack =>
    cases frame with
    | unary => exact Nat.le_trans h hm
    | binary => exact Nat.lt_of_lt_of_le h hm
    | group => trivial

theorem reduce_of_waits {n : Nat} {stack : List Frame} (h : Waits n stack) (hn : n < 5) (e : Expr) :
    reduce n stack e = (stack, e) := by
  cases stack with
  | nil => rfl
  | cons frame stack =>
    cases frame with
    | unary =>
      have hfive : 5 ≤ n := h
      omega
    | binary level =>
      have hlt : level < n := h
      have hle : ¬ n ≤ level := by omega
      simp [reduce, hle]
    | group => rfl

section Residue

variable {n : Nat} {frames : List Frame} (h : ∀ frame ∈ frames, frame.IsTight n)

include h

theorem expectedCloser?_append (stack : List Frame) :
    expectedCloser? (frames ++ stack) = expectedCloser? stack := by
  induction frames with
  | nil => rfl
  | cons frame frames ih =>
    have hrest := ih fun f hf => h f (List.mem_cons_of_mem frame hf)
    cases frame with
    | unary => exact hrest
    | binary => exact hrest
    | group => exact (h _ List.mem_cons_self).elim

theorem unwind_append (stack : List Frame) (e : Expr) :
    unwind (frames ++ stack) e = unwind stack (unwind frames e).1 := by
  induction frames generalizing e with
  | nil => rfl
  | cons frame frames ih =>
    have hrest := ih fun f hf => h f (List.mem_cons_of_mem frame hf)
    cases frame with
    | unary op pos => exact hrest (.unary op pos e)
    | binary level left op pos => exact hrest (.binary op pos left e)
    | group => exact (h _ List.mem_cons_self).elim

theorem reduce_append {level : Nat} (hlevel : level ≤ n) (stack : List Frame) (e : Expr) :
    reduce level (frames ++ stack) e = reduce level stack (unwind frames e).1 := by
  induction frames generalizing e with
  | nil => rfl
  | cons frame frames ih =>
    have hrest := ih fun f hf => h f (List.mem_cons_of_mem frame hf)
    cases frame with
    | unary op pos => exact hrest (.unary op pos e)
    | binary l left op pos =>
      have hl : n ≤ l := h _ List.mem_cons_self
      have hle : level ≤ l := Nat.le_trans hlevel hl
      simp only [List.cons_append, reduce, hle, if_true]
      exact hrest (.binary op pos left e)
    | group => exact (h _ List.mem_cons_self).elim

end Residue

/-- The tokens of an expression are read without a report, and the frames that they leave behind put
the expression together. -/
theorem shiftsAll_of_derives {n : Nat} {ts : List Token} {e : Expr} (h : Derives n ts e)
    {stack : List Frame} (hstack : Waits n stack) :
    ∃ frames last, ShiftsAll (.operand stack) ts (.operator (frames ++ stack) last) ∧
      (∀ frame ∈ frames, frame.IsTight n) ∧ (unwind frames last).1 = e := by
  induction h generalizing stack with
  -- the operator completes what its left operand has left behind, and then waits itself
  | @binary n s pos ls rs l r hs _ _ ihl ihr =>
    obtain ⟨lframes, llast, hl, hltight, hleft⟩ := ihl hstack
    have hn := Grammar.lt_five_of_mem_operators hs
    have hop : Shifts (.operator (lframes ++ stack) llast) (.symbol s pos)
        (.operand (.binary n l s pos :: stack)) := by
      have hshift : Shifts (.operator (lframes ++ stack) llast) (.symbol s pos) _ :=
        .binary (Symbol.level?_eq_some_iff.2 hs)
      rwa [reduce_append hltight (Nat.le_refl n), hleft, reduce_of_waits hstack hn] at hshift
    have hwaits : Waits (n + 1) (.binary n l s pos :: stack) := Nat.lt_succ_self n
    obtain ⟨rframes, rlast, hr, hrtight, hright⟩ := ihr hwaits
    refine ⟨rframes ++ [.binary n l s pos], rlast, ?_, ?_, ?_⟩
    · rw [List.append_assoc]
      exact hl.append (.cons hop hr)
    · intro frame hframe
      rcases List.mem_append.1 hframe with hmem | hmem
      · exact (hrtight frame hmem).mono (Nat.le_succ n)
      · rw [List.mem_singleton.1 hmem]
        exact Nat.le_refl n
    · rw [unwind_append hrtight, hright]
      rfl
  | tighter _ _ ih =>
    obtain ⟨frames, last, hshifts, htight, he⟩ := ih (hstack.mono (Nat.le_succ _))
    exact ⟨frames, last, hshifts, fun f hf => (htight f hf).mono (Nat.le_succ _), he⟩
  | @unary s pos ts e hs _ ih =>
    have hwaits : Waits 5 (.unary s pos :: stack) := Nat.le_refl 5
    obtain ⟨frames, last, hshifts, htight, he⟩ := ih hwaits
    refine ⟨frames ++ [.unary s pos], last, ?_, ?_, ?_⟩
    · rw [List.append_assoc]
      exact .cons (.unary (Symbol.isPrefixOperator_iff.2 hs)) hshifts
    · intro frame hframe
      rcases List.mem_append.1 hframe with hmem | hmem
      · exact htight frame hmem
      · rw [List.mem_singleton.1 hmem]
        trivial
    · rw [unwind_append htight, he]
      rfl
  | number | string | void => exact ⟨[], _, (Shifts.literal rfl).all, by simp, rfl⟩
  | @group opener closer p q ts e hmem _ ih =>
    obtain ⟨delimiter, rfl, rfl⟩ := Delimiter.exists_of_mem_delimiters hmem
    have hwaits : Waits 0 (.group delimiter p :: stack) := trivial
    obtain ⟨frames, last, hshifts, htight, he⟩ := ih hwaits
    have hopen : Shifts (.operand stack) (.symbol delimiter.opening p)
        (.operand (.group delimiter p :: stack)) :=
      .opener (Delimiter.ofOpening?_eq_some_iff.2 rfl)
    have hexpected : expectedCloser? (frames ++ .group delimiter p :: stack) =
        some delimiter.closing := by
      rw [expectedCloser?_append htight]
      rfl
    have hclose : closeGroup (frames ++ .group delimiter p :: stack) last =
        .operator stack (.grouping e) := by
      unfold closeGroup
      rw [reduce_append htight (Nat.le_refl 0), he]
      rfl
    have hcloser : Shifts (.operator (frames ++ .group delimiter p :: stack) last)
        (.symbol delimiter.closing q) _ := .closer hexpected
    rw [hclose] at hcloser
    exact ⟨[], _, .cons hopen (hshifts.append hcloser.all), by simp, rfl⟩

theorem shiftsAll_of_derives_zero {ts : List Token} {e : Expr} (h : Derives 0 ts e) :
    ∃ stack last, ShiftsAll (.operand []) ts (.operator stack last) ∧
      unwind stack last = (e, []) := by
  have hwaits : Waits 0 [] := trivial
  obtain ⟨frames, last, hshifts, htight, he⟩ := shiftsAll_of_derives h hwaits
  refine ⟨frames ++ [], last, hshifts, ?_⟩
  rw [unwind_append htight, he]
  rfl

end Parse

/-! ### The tokens of a tree -/

namespace Expr

/-- The tokens of the literals and operators of a tree, in the order of a source. -/
def inorder : Expr → List Token
  | literal l pos => [.literal l pos]
  | unary op pos operand => .symbol op pos :: operand.inorder
  | binary op pos left right => left.inorder ++ .symbol op pos :: right.inorder
  | grouping operand => operand.inorder

def groups (e : Expr) : Nat := e.preorder.count .grouping

@[simp] theorem groups_literal (l : Literal) (pos : Position) : (literal l pos).groups = 0 := rfl

@[simp] theorem groups_unary (op : Symbol) (pos : Position) (operand : Expr) :
    (unary op pos operand).groups = operand.groups := by
  simp [groups, preorder]

@[simp] theorem groups_binary (op : Symbol) (pos : Position) (left right : Expr) :
    (binary op pos left right).groups = left.groups + right.groups := by
  simp [groups, preorder]

@[simp] theorem groups_grouping (operand : Expr) :
    (grouping operand).groups = operand.groups + 1 := by
  simp [groups, preorder]

end Expr

namespace Token

def opensGroup : Token → Bool
  | symbol s _ => Grammar.delimiters.any (·.1 = s)
  | _ => false

def closesGroup : Token → Bool
  | symbol s _ => Grammar.delimiters.any (·.2 = s)
  | _ => false

def isDelimiter (t : Token) : Bool := t.opensGroup || t.closesGroup

end Token

theorem Grammar.isDelimiter_of_mem_operators {s : Symbol} {n : Nat} (h : s ∈ Grammar.operators n)
    (pos : Position) : (Token.symbol s pos).isDelimiter = false := by
  have hlevel := Symbol.level?_eq_some_iff.2 h
  cases s <;> first | rfl | simp [Symbol.level?] at hlevel

theorem Grammar.isDelimiter_of_mem_unaryOperators {s : Symbol} (h : s ∈ Grammar.unaryOperators)
    (pos : Position) : (Token.symbol s pos).isDelimiter = false := by
  have hprefix := Symbol.isPrefixOperator_iff.2 h
  cases s <;> first | rfl | simp [Symbol.isPrefixOperator] at hprefix

theorem Derives.inorder_eq {n : Nat} {ts : List Token} {e : Expr} (h : Derives n ts e) :
    e.inorder = ts.filter (!·.isDelimiter) := by
  induction h with
  | @binary n s pos ls rs l r hs _ _ ihl ihr =>
    have hop := Grammar.isDelimiter_of_mem_operators hs pos
    simp [Expr.inorder, ihl, ihr, hop]
  | tighter _ _ ih => exact ih
  | @unary s pos ts e hs _ ih =>
    have hop := Grammar.isDelimiter_of_mem_unaryOperators hs pos
    simp [Expr.inorder, ih, hop]
  | number | string | void => rfl
  | @group opener closer p q ts e hmem _ ih =>
    obtain ⟨delimiter, rfl, rfl⟩ := Delimiter.exists_of_mem_delimiters hmem
    have hopener : (Token.symbol delimiter.opening p).isDelimiter = true := by
      cases delimiter <;> rfl
    have hcloser : (Token.symbol delimiter.closing q).isDelimiter = true := by
      cases delimiter <;> rfl
    simp [Expr.inorder, ih, hopener, hcloser]

theorem Derives.groups_eq {n : Nat} {ts : List Token} {e : Expr} (h : Derives n ts e) :
    e.groups = ts.countP (·.opensGroup) ∧ e.groups = ts.countP (·.closesGroup) := by
  induction h with
  | @binary n s pos ls rs l r hs _ _ ihl ihr =>
    have hop := Bool.or_eq_false_iff.1 (Grammar.isDelimiter_of_mem_operators hs pos)
    simp [hop, ← ihl.1, ← ihl.2, ← ihr.1, ← ihr.2]
  | tighter _ _ ih => exact ih
  | @unary s pos ts e hs _ ih =>
    have hop := Bool.or_eq_false_iff.1 (Grammar.isDelimiter_of_mem_unaryOperators hs pos)
    simp [hop, ← ih.1, ← ih.2]
  | number | string | void => exact ⟨rfl, rfl⟩
  | @group opener closer p q ts e hmem _ ih =>
    obtain ⟨delimiter, rfl, rfl⟩ := Delimiter.exists_of_mem_delimiters hmem
    have hopens : (Token.symbol delimiter.opening p).opensGroup = true ∧
        (Token.symbol delimiter.closing q).opensGroup = false := by
      cases delimiter <;> exact ⟨rfl, rfl⟩
    have hcloses : (Token.symbol delimiter.opening p).closesGroup = false ∧
        (Token.symbol delimiter.closing q).closesGroup = true := by
      cases delimiter <;> exact ⟨rfl, rfl⟩
    simp [hopens, hcloses, ← ih.1, ← ih.2]

/-! ### The parser accepts exactly the grammar -/

namespace Tree

theorem parse_of_derives {tokens : List Token} {e : Expr} (h : Derives 0 (Token.body tokens) e) :
    parse tokens = (⟨e, Parse.eofPos TokenTrail.start tokens⟩, []) := by
  obtain ⟨stack, last, hshifts, hunwind⟩ := Parse.shiftsAll_of_derives_zero h
  rw [Parse.parse_eq_of_shiftsAll hshifts, hunwind]

theorem derives_of_parse {tokens : List Token}
    (hvalid : ∀ t ∈ Token.body tokens, t.fault? = none) (h : (parse tokens).2 = []) :
    Derives 0 (Token.body tokens) (parse tokens).1.root := by
  obtain ⟨stack, e, hshifts, hunwind⟩ := Parse.shiftsAll_of_parse hvalid h
  rw [Parse.parse_eq_of_shiftsAll hshifts]
  exact Parse.derives_of_shiftsAll hshifts hunwind

theorem derives_iff_eq_root {tokens : List Token}
    (hvalid : ∀ t ∈ Token.body tokens, t.fault? = none) (h : (parse tokens).2 = []) (e : Expr) :
    Derives 0 (Token.body tokens) e ↔ e = (parse tokens).1.root := by
  constructor
  · intro he
    rw [parse_of_derives he]
  · rintro rfl
    exact derives_of_parse hvalid h

theorem parseInto?_eq_some {limit : Nat} {log after : DiagnosticLog} {tokens : List Token}
    {tree : Tree} (h : parseInto? limit log tokens = some (tree, after)) :
    tree = (parse tokens).1 ∧ after = log.append (parse tokens).2 := by
  simp only [parseInto?, Option.ite_none_right_eq_some, Option.some.injEq, Prod.mk.injEq] at h
  exact ⟨h.2.1.symm, h.2.2.symm⟩

/-- Parsing records nothing exactly for the token lists of the grammar. Its root is then the one tree
that the grammar assigns, with the literals and operators of the source in their order and a group
for each pair of delimiters; and no tree of the grammar within the depth limit is refused. -/
theorem parse_records_nothing_iff_derives (limit : Nat) (log : DiagnosticLog) (tokens : List Token)
    (hvalid : ∀ t ∈ Token.body tokens, t.fault? = none) :
    (∀ tree after, parseInto? limit log tokens = some (tree, after) →
      (after = log ↔ ∃ e, Derives 0 (Token.body tokens) e) ∧
      (after = log →
        (∀ e, Derives 0 (Token.body tokens) e ↔ e = tree.root) ∧
        tree.root.inorder = (Token.body tokens).filter (!·.isDelimiter) ∧
        tree.root.groups = (Token.body tokens).countP (·.opensGroup) ∧
        tree.root.groups = (Token.body tokens).countP (·.closesGroup))) ∧
    (∀ e, Derives 0 (Token.body tokens) e → e.depth ≤ limit →
      ∃ eof, parseInto? limit log tokens = some (⟨e, eof⟩, log)) := by
  refine ⟨fun tree after hlimit => ?_, fun e he hdepth => ?_⟩
  · obtain ⟨rfl, rfl⟩ := parseInto?_eq_some hlimit
    have hquiet : log.append (parse tokens).2 = log ↔ (parse tokens).2 = [] := by
      rw [DiagnosticLog.append_eq_self_iff]
    rw [hquiet]
    refine ⟨⟨fun h => ⟨_, derives_of_parse hvalid h⟩, ?_⟩, fun h => ?_⟩
    · rintro ⟨e, he⟩
      rw [parse_of_derives he]
    · have hroot := derives_of_parse hvalid h
      exact ⟨derives_iff_eq_root hvalid h, hroot.inorder_eq, hroot.groups_eq⟩
  · refine ⟨Parse.eofPos TokenTrail.start tokens, ?_⟩
    simp only [parseInto?, parse_of_derives he, hdepth, if_true]
    simp [DiagnosticLog.append]

/-- The tokens of `-a ^ (b - c)` for three strings, and one token after the end of the source. -/
def negatedPower : List Token :=
  [.symbol .minus ⟨1, 1⟩, .literal (.string "a") ⟨1, 2⟩, .symbol .caret ⟨1, 6⟩,
    .symbol .leftParen ⟨1, 8⟩, .literal (.string "b") ⟨1, 9⟩, .symbol .minus ⟨1, 13⟩,
    .literal (.string "c") ⟨1, 15⟩, .symbol .rightParen ⟨1, 18⟩, .endOfFile ⟨1, 19⟩,
    .symbol .comma ⟨1, 19⟩]

theorem parse_records_nothing_negatedPower :
    (∀ t ∈ Token.body negatedPower, t.fault? = none) ∧
      ∃ tree, parseInto? 10 .empty negatedPower = some (tree, .empty) ∧
        Derives 0 (Token.body negatedPower) tree.root ∧ tree.root.groups = 1 := by
  have hvalid : ∀ t ∈ Token.body negatedPower, t.fault? = none := by decide
  have hlimit : parseInto? 10 .empty negatedPower = some ((parse negatedPower).1, .empty) := by
    decide
  obtain ⟨-, hroot⟩ :=
    (parse_records_nothing_iff_derives 10 .empty negatedPower hvalid).1 _ _ hlimit
  obtain ⟨hderives, -, hgroups, -⟩ := hroot rfl
  exact ⟨hvalid, _, hlimit, (hderives _).2 rfl, hgroups⟩

end Tree

end ExprLang
