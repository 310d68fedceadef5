import ExprLang.Proofs.Delimiters
import ExprLang.Proofs.EndOfInput

/-! # Closers that are missing or too many

Which groups are open at some place of a token list can be told from its openers and closers alone. As
long as an expression goes on, the stack of the parser holds just these groups. A closer that is put in
where it does not close the innermost of them is therefore reported and skipped, and the expression
goes on as if it were not there. Where the closers at the end are missing instead, the groups that are
still open are completed as the closers would have done it, with a report about each opener. -/

namespace ExprLang

/-! ### Open groups -/

namespace Token

def isCloser : Token → Bool
  | symbol s _ => s.isCloser
  | _ => false

/-- The groups that are open after one more token, the innermost first. -/
def openAfter (opened : List (Delimiter × Position)) : Token → List (Delimiter × Position)
  | symbol s pos =>
    match Delimiter.ofOpening? s with
    | some delimiter => (delimiter, pos) :: opened
    | none => if opened.head?.map (·.1.closing) = some s then opened.tail else opened
  | _ => opened

def openGroups (ts : List Token) : List (Delimiter × Position) := ts.foldl openAfter []

/-- The closer of the innermost group that is open after some tokens. -/
def awaitedCloser? (ts : List Token) : Option Symbol := (openGroups ts).head?.map (·.1.closing)

theorem openGroups_append_singleton (ts : List Token) (t : Token) :
    openGroups (ts ++ [t]) = openAfter (openGroups ts) t := by
  unfold openGroups
  rw [List.foldl_append]
  rfl

theorem openAfter_closing (delimiter : Delimiter) (p q : Position)
    (opened : List (Delimiter × Position)) :
    openAfter ((delimiter, p) :: opened) (.symbol delimiter.closing q) = opened := by
  cases delimiter <;> rfl

theorem openAfter_of_isBracket {t : Token} (h : t.isBracket = false)
    (opened : List (Delimiter × Position)) : openAfter opened t = opened := by
  cases t with
  | keyword | literal | endOfFile | invalid => rfl
  | symbol s pos =>
    rw [Parse.isBracket_symbol, Bool.or_eq_false_iff, Option.isSome_eq_false_iff,
      Option.isNone_iff_eq_none] at h
    obtain ⟨hcloser, hopening⟩ := h
    have hnot : opened.head?.map (·.1.closing) ≠ some s := by
      intro heq
      obtain ⟨group, -, hclosing⟩ := Option.map_eq_some_iff.1 heq
      rw [← hclosing, Parse.isCloser_closing] at hcloser
      cases hcloser
    simp only [openAfter, hopening, if_neg hnot]

end Token

namespace Parse

theorem expectedCloser?_eq_head? (stack : List Frame) :
    expectedCloser? stack = (openDelimiters stack).head?.map (·.1.closing) := by
  induction stack with
  | nil => rfl
  | cons frame stack ih =>
    cases frame with
    | unary | binary => exact ih
    | group => rfl

theorem Shifts.openDelimiters_eq {phase next : Phase} {t : Token} (h : Shifts phase t next) :
    openDelimiters next.stack = Token.openAfter (openDelimiters phase.stack) t := by
  cases h with
  | literal => rfl
  | @unary stack s pos hs =>
    exact (Token.openAfter_of_isBracket (isBracket_of_isPrefixOperator hs pos) _).symm
  | @opener stack s delimiter pos hs =>
    simp only [Token.openAfter, hs]
    rfl
  | @binary stack e s pos level hs =>
    rw [Token.openAfter_of_isBracket (isBracket_of_level? hs pos)]
    exact openDelimiters_reduce level stack e
  | @closer stack e s pos hs =>
    obtain ⟨delimiter, p, rest, inner, hreduce, rfl, hclose⟩ := closeGroup_eq e hs
    have hopen : (delimiter, p) :: openDelimiters rest = openDelimiters stack := by
      rw [← openDelimiters_reduce 0 stack e, hreduce]
      rfl
    rw [hclose, Phase.stack, Phase.stack, ← hopen, Token.openAfter_closing]

/-- The stack holds the groups that the tokens so far leave open, and nothing but pairs is between
their openers. -/
structure Opened (phase : Phase) (us : List Token) : Prop where
  groups : openDelimiters phase.stack = Token.openGroups us
  nested : NestedBut (Token.openGroups us) us

theorem opened_start : Opened (.operand []) [] := ⟨rfl, .nil .nil⟩

theorem Opened.shift {phase next : Phase} {us : List Token} {t : Token} (h : Opened phase us)
    (hshift : Shifts phase t next) : Opened next (us ++ [t]) := by
  have hgroups : openDelimiters next.stack = Token.openGroups (us ++ [t]) := by
    rw [hshift.openDelimiters_eq, h.groups, Token.openGroups_append_singleton]
  have hnested := h.nested
  rw [← h.groups] at hnested
  refine ⟨hgroups, ?_⟩
  rw [← hgroups]
  exact hshift.nestedBut hnested

theorem Opened.expectedCloser?_eq {phase : Phase} {us : List Token} (h : Opened phase us) :
    expectedCloser? phase.stack = Token.awaitedCloser? us := by
  rw [expectedCloser?_eq_head?, h.groups, Token.awaitedCloser?]

theorem Shifts.isEndOfFile_eq {phase next : Phase} {t : Token} (h : Shifts phase t next) :
    t.isEndOfFile = false := by
  cases h <;> rfl

theorem ShiftsAll.isEndOfFile_eq {phase next : Phase} {ts : List Token}
    (h : ShiftsAll phase ts next) : ∀ t ∈ ts, t.isEndOfFile = false := by
  induction h with
  | nil => simp
  | cons hshift _ ih => exact List.forall_mem_cons.2 ⟨hshift.isEndOfFile_eq, ih⟩

section

variable {ts : List Token} {stack : List Frame} {last : Expr}
  (h : ShiftsAll (.operand []) ts (.operator stack last))
include h

theorem parse_ended (eof : Position) :
    Tree.parse (ts ++ [.endOfFile eof]) = (⟨(unwind stack last).1, eof⟩, (unwind stack last).2) := by
  have hbody := h.isEndOfFile_eq
  rw [← body_append hbody eof []] at h
  rw [parse_eq_of_shiftsAll h, eofPos_append hbody]

theorem parse_endless :
    Tree.parse ts = (⟨(unwind stack last).1, Token.lastPos ts⟩, (unwind stack last).2) := by
  have hbody := h.isEndOfFile_eq
  rw [← body_of_endless hbody] at h
  rw [parse_eq_of_shiftsAll h, eofPos_start_of_endless hbody]

end

end Parse

/-! ### Stray closers -/

/-- `Inserts before ts us strays`: `us` is `ts` with the closers `strays` put in at any places. None of
them is the closer of the innermost group that is open at its place, where `before` is what comes
before `ts`. -/
inductive Inserts : List Token → List Token → List Token → List (Symbol × Position) → Prop
  | nil {before : List Token} : Inserts before [] [] []
  | keep {before ts us : List Token} {t : Token} {strays : List (Symbol × Position)} :
    Inserts (before ++ [t]) ts us strays → Inserts before (t :: ts) (t :: us) strays
  | stray {before ts us : List Token} {s : Symbol} {pos : Position}
      {strays : List (Symbol × Position)} :
    s.isCloser = true → Token.awaitedCloser? before ≠ some s → Inserts before ts us strays →
      Inserts before ts (.symbol s pos :: us) ((s, pos) :: strays)

theorem Inserts.isEndOfFile_eq {before ts us : List Token} {strays : List (Symbol × Position)}
    (h : Inserts before ts us strays) (hts : ∀ t ∈ ts, t.isEndOfFile = false) :
    ∀ t ∈ us, t.isEndOfFile = false := by
  induction h with
  | nil => exact hts
  | keep _ ih =>
    obtain ⟨ht, hts⟩ := List.forall_mem_cons.1 hts
    exact List.forall_mem_cons.2 ⟨ht, ih hts⟩
  | stray _ _ _ ih => exact List.forall_mem_cons.2 ⟨rfl, ih hts⟩

def Diagnostic.ofStray (stray : Symbol × Position) : Diagnostic :=
  .unmatchedDelimiter stray.2 stray.1.text

namespace Parse

theorem step_of_stray {phase : Phase} (hphase : ∀ root reported, phase ≠ .trailing root reported)
    {s : Symbol} (hcloser : s.isCloser = true) (hexpected : expectedCloser? phase.stack ≠ some s)
    (trail : TokenTrail) (pos : Position) :
    step trail phase (.symbol s pos) = (phase, [.ofStray (s, pos)]) := by
  have hstray : stray? phase.stack (.symbol s pos) = some (.ofStray (s, pos)) := by
    simp [stray?, hcloser, hexpected, Diagnostic.ofStray]
  cases phase with
  | operand stack => exact step_operand_of_stray hstray trail
  | operator stack e => exact step_operator_of_stray hstray trail e
  | trailing root reported => exact absurd rfl (hphase root reported)

theorem steps_of_inserts {before ts us : List Token} {strays : List (Symbol × Position)}
    (h : Inserts before ts us strays) {phase next : Phase} (hshifts : ShiftsAll phase ts next)
    (hphase : ∀ root reported, phase ≠ .trailing root reported)
    (hopen : Opened phase before) (trail : TokenTrail) :
    steps trail phase us = (next, strays.map .ofStray) := by
  induction h generalizing phase trail with
  | nil =>
    cases hshifts with
    | nil => rfl
  | @keep before ts us t strays _ ih =>
    cases hshifts with
    | cons hshift hrest =>
      have hlater := ih hrest hshift.next_ne_trailing (hopen.shift hshift) (trail.after t)
      simp only [steps, step_eq_of_shifts hshift, hlater, List.nil_append]
  | @stray before ts us s pos strays hcloser hawaited _ ih =>
    have hexpected : expectedCloser? phase.stack ≠ some s := by
      rw [hopen.expectedCloser?_eq]
      exact hawaited
    have hlater := ih hshifts hphase hopen (trail.after (.symbol s pos))
    simp only [steps, step_of_stray hphase hcloser hexpected, hlater]
    rfl

end Parse

namespace Tree

/-- Stray closers are transparent. If any number of closers is put into the tokens of an expression, none
of them where it would close the innermost open group, then the tree stays that of the expression, and
there is one report about each of them, in their order, and no other. So it is for every parser, as
long as the tree is not too deep. -/
theorem parse_skips_strays {ts us : List Token} {strays : List (Symbol × Position)} {e : Expr}
    (hts : Derives 0 ts e) (hus : Inserts [] ts us strays) (eof : Position) :
    parse (ts ++ [.endOfFile eof]) = (⟨e, eof⟩, []) ∧
    parse (us ++ [.endOfFile eof]) = (⟨e, eof⟩, strays.map .ofStray) ∧
    (∀ limit, e.depth ≤ limit → ∀ (parser : Parser) (log : DiagnosticLog),
      parser.result limit log (us ++ [.endOfFile eof]) =
        (some ⟨e, eof⟩, log.append (strays.map .ofStray))) := by
  obtain ⟨stack, last, hshifts, hunwind⟩ := Parse.shiftsAll_of_derives_zero hts
  have hbody := hus.isEndOfFile_eq hshifts.isEndOfFile_eq
  have hsteps := Parse.steps_of_inserts hus hshifts (by simp) Parse.opened_start .start
  have hplain : parse (ts ++ [.endOfFile eof]) = (⟨e, eof⟩, []) := by
    rw [Parse.parse_ended hshifts, hunwind]
  have hparse : parse (us ++ [.endOfFile eof]) = (⟨e, eof⟩, strays.map .ofStray) := by
    rw [parse, Parse.run_eq, Parse.body_append hbody, Parse.eofPos_append hbody, hsteps]
    simp [Parse.finish, hunwind]
  refine ⟨hplain, hparse, fun limit hdepth parser log => ?_⟩
  exact Parser.result_of_parse hparse hdepth parser log

/-- The tokens of `("a")+"b"`. -/
def groupedSum : List Token :=
  [.symbol .leftParen ⟨1, 2⟩, .literal (.string "a") ⟨1, 4⟩, .symbol .rightParen ⟨1, 8⟩,
    .symbol .plus ⟨1, 10⟩, .literal (.string "b") ⟨1, 12⟩]

/-- The same tokens with a closer put in at every place. -/
def strewnSum : List Token :=
  [.symbol .rightCurly ⟨1, 1⟩, .symbol .leftParen ⟨1, 2⟩, .symbol .rightCurly ⟨1, 3⟩,
    .literal (.string "a") ⟨1, 4⟩, .symbol .rightSquare ⟨1, 7⟩, .symbol .rightParen ⟨1, 8⟩,
    .symbol .rightParen ⟨1, 9⟩, .symbol .plus ⟨1, 10⟩, .symbol .rightParen ⟨1, 11⟩,
    .literal (.string "b") ⟨1, 12⟩, .symbol .rightSquare ⟨1, 15⟩]

theorem parse_skips_strays_strewnSum :
    ∃ e strays, Derives 0 groupedSum e ∧ Inserts [] groupedSum strewnSum strays ∧
      strays.length = 6 ∧
      parse (strewnSum ++ [.endOfFile ⟨1, 16⟩]) = (⟨e, ⟨1, 16⟩⟩, strays.map .ofStray) := by
  have hderives : Derives 0 groupedSum (parse groupedSum).1.root :=
    @derives_of_parse groupedSum (by decide) (by decide)
  have hinserts : Inserts [] groupedSum strewnSum
      [(.rightCurly, ⟨1, 1⟩), (.rightCurly, ⟨1, 3⟩), (.rightSquare, ⟨1, 7⟩),
        (.rightParen, ⟨1, 9⟩), (.rightParen, ⟨1, 11⟩), (.rightSquare, ⟨1, 15⟩)] :=
    .stray rfl (by decide) <| .keep <| .stray rfl (by decide) <| .keep <| .stray rfl (by decide) <|
      .keep <| .stray rfl (by decide) <| .keep <| .stray rfl (by decide) <| .keep <|
      .stray rfl (by decide) .nil
  exact ⟨_, _, hderives, hinserts, rfl, (parse_skips_strays hderives hinserts ⟨1, 16⟩).2.1⟩

end Tree

/-! ### Missing closers -/

def Diagnostic.ofUnclosed (group : Delimiter × Position) : Diagnostic :=
  .unmatchedDelimiter group.2 group.1.opening.text

namespace Parse

theorem reports_unwind (stack : List Frame) (e : Expr) :
    (unwind stack e).2 = (openDelimiters stack).map .ofUnclosed := by
  induction stack generalizing e with
  | nil => rfl
  | cons frame stack ih =>
    cases frame with
    | unary | binary => exact ih _
    | group delimiter pos => exact congrArg _ (ih (.grouping e))

theorem unwind_reduce (level : Nat) (stack : List Frame) (e : Expr) :
    unwind (reduce level stack e).1 (reduce level stack e).2 = unwind stack e := by
  refine reduce_invariant (P := fun s x => unwind s x = unwind stack e) ?_ ?_ level rfl
  · exact fun op pos s x h => h
  · exact fun l left op pos s x h => h

/-- A closer completes one group, as the end of the tokens would. -/
theorem Shifts.unwind_eq_of_closer {phase next : Phase} {t : Token} (h : Shifts phase t next)
    (ht : t.isCloser = true) :
    ∃ stack e rest inner, phase = .operator stack e ∧ next = .operator rest inner ∧
      (unwind stack e).1 = (unwind rest inner).1 ∧
      (openDelimiters stack).length = (openDelimiters rest).length + 1 := by
  cases h with
  | literal => cases ht
  | unary hs => exact absurd ht (by simp [Token.isCloser, isCloser_of_isPrefixOperator hs])
  | opener hs => exact absurd ht (by simp [Token.isCloser, isCloser_of_ofOpening? hs])
  | binary hs => exact absurd ht (by simp [Token.isCloser, isCloser_of_level? hs])
  | @closer stack e s pos hs =>
    obtain ⟨delimiter, p, rest, inner, hreduce, -, hclose⟩ := closeGroup_eq e hs
    have hunwind := unwind_reduce 0 stack e
    have hopen := openDelimiters_reduce 0 stack e
    rw [hreduce] at hunwind hopen
    refine ⟨stack, e, rest, .grouping inner, rfl, hclose, ?_, ?_⟩
    · rw [← hunwind]
      rfl
    · rw [← hopen]
      rfl

theorem ShiftsAll.unwind_eq_of_closers {phase : Phase} {closers : List Token} {stack : List Frame}
    {e : Expr} (h : ShiftsAll phase closers (.operator stack e))
    (hclosers : ∀ t ∈ closers, t.isCloser = true) :
    ∃ stack' e', phase = .operator stack' e' ∧ (unwind stack' e').1 = (unwind stack e).1 ∧
      (openDelimiters stack').length = (openDelimiters stack).length + closers.length := by
  induction closers generalizing phase with
  | nil =>
    cases h with
    | nil => exact ⟨stack, e, rfl, rfl, rfl⟩
  | cons t closers ih =>
    obtain ⟨ht, hrest⟩ := List.forall_mem_cons.1 hclosers
    cases h with
    | cons hshift hshifts =>
      obtain ⟨stack₁, e₁, stack₂, e₂, rfl, rfl, htree, hlength⟩ := hshift.unwind_eq_of_closer ht
      obtain ⟨stack', e', heq, htree', hlength'⟩ := ih hshifts hrest
      obtain ⟨rfl, rfl⟩ := Phase.operator.inj heq
      refine ⟨stack₁, e₁, rfl, htree.trans htree', ?_⟩
      rw [hlength, hlength', List.length_cons, Nat.add_assoc]

/-- Without its last closers an expression is read to a stack that still completes to its tree. -/
theorem completed_of_derives {us closers : List Token} {e : Expr} (h : Derives 0 (us ++ closers) e)
    (hclosers : ∀ t ∈ closers, t.isCloser = true) :
    ∃ stack last, ShiftsAll (.operand []) us (.operator stack last) ∧
      unwind stack last = (e, (Token.openGroups us).map .ofUnclosed) ∧
      NestedBut (Token.openGroups us) us ∧ (Token.openGroups us).length = closers.length := by
  obtain ⟨stack', last', hshifts, hunwind⟩ := shiftsAll_of_derives_zero h
  obtain ⟨mid, hread, hclose⟩ := hshifts.split
  obtain ⟨stack, last, rfl, htree, hlength⟩ := hclose.unwind_eq_of_closers hclosers
  have hopened : Opened (.operator stack last) us :=
    shiftsAll_invariant Opened.shift opened_start hread
  have hopen : openDelimiters stack = Token.openGroups us := hopened.groups
  -- the whole expression leaves no group open, so the closers are all that is missing
  have hclosed : openDelimiters stack' = [] := by
    have hreports := reports_unwind stack' last'
    rw [hunwind] at hreports
    exact List.map_eq_nil_iff.1 hreports.symm
  refine ⟨stack, last, hread, Prod.ext ?_ ?_, hopened.nested, ?_⟩
  · rw [htree, hunwind]
  · rw [reports_unwind, hopen]
  · rw [← hopen, hlength, hclosed, List.length_nil, Nat.zero_add]

end Parse

namespace Tree

/-- Groups that are not closed at the end keep their tree. If the closers at the end of an expression
are left away, there are as many open groups as closers that are missing; the tree is still that of the
expression, and the reports name the openers of these groups, the innermost first, and nothing else.
An end-of-file token makes no difference. So it is for every parser, as long as the tree is not too
deep. -/
theorem parse_completes_groups {us closers : List Token} {e : Expr}
    (h : Derives 0 (us ++ closers) e) (hclosers : ∀ t ∈ closers, t.isCloser = true) :
    NestedBut (Token.openGroups us) us ∧ (Token.openGroups us).length = closers.length ∧
    (∀ eof, parse (us ++ [.endOfFile eof]) =
      (⟨e, eof⟩, (Token.openGroups us).map .ofUnclosed)) ∧
    parse us = (⟨e, Token.lastPos us⟩, (Token.openGroups us).map .ofUnclosed) ∧
    (∀ limit, e.depth ≤ limit → ∀ (parser : Parser) (log : DiagnosticLog),
      (∀ eof, parser.result limit log (us ++ [.endOfFile eof]) =
        (some ⟨e, eof⟩, log.append ((Token.openGroups us).map .ofUnclosed))) ∧
      parser.result limit log us =
        (some ⟨e, Token.lastPos us⟩, log.append ((Token.openGroups us).map .ofUnclosed))) := by
  obtain ⟨stack, last, hread, hunwind, hnested, hcount⟩ := Parse.completed_of_derives h hclosers
  have hended : ∀ eof, parse (us ++ [.endOfFile eof]) =
      (⟨e, eof⟩, (Token.openGroups us).map .ofUnclosed) := by
    intro eof
    rw [Parse.parse_ended hread, hunwind]
  have hendless : parse us = (⟨e, Token.lastPos us⟩, (Token.openGroups us).map .ofUnclosed) := by
    rw [Parse.parse_endless hread, hunwind]
  refine ⟨hnested, hcount, hended, hendless, fun limit hdepth parser log => ⟨fun eof => ?_, ?_⟩⟩
  · exact Parser.result_of_parse (hended eof) hdepth parser log
  · exact Parser.result_of_parse hendless hdepth parser log

/-- The tokens of `("a"+{-("b"`, where three groups are open. -/
def openedSum : List Token :=
  [.symbol .leftParen ⟨1, 1⟩, .literal (.string "a") ⟨1, 2⟩, .symbol .plus ⟨1, 5⟩,
    .symbol .leftCurly ⟨1, 6⟩, .symbol .minus ⟨1, 7⟩, .symbol .leftParen ⟨1, 8⟩,
    .literal (.string "b") ⟨1, 9⟩]

def sumClosers : List Token :=
  [.symbol .rightParen ⟨1, 12⟩, .symbol .rightCurly ⟨1, 13⟩, .symbol .rightParen ⟨1, 14⟩]

theorem parse_completes_groups_openedSum :
    ∃ e, Derives 0 (openedSum ++ sumClosers) e ∧ (∀ t ∈ sumClosers, t.isCloser = true) ∧
      parse openedSum = (⟨e, ⟨1, 9⟩⟩, [.unmatchedDelimiter ⟨1, 8⟩ "(",
        .unmatchedDelimiter ⟨1, 6⟩ "\x7b", .unmatchedDelimiter ⟨1, 1⟩ "("]) := by
  have hderives : Derives 0 (openedSum ++ sumClosers) (parse (openedSum ++ sumClosers)).1.root :=
    @derives_of_parse (openedSum ++ sumClosers) (by decide) (by decide)
  have hclosers : ∀ t ∈ sumClosers, t.isCloser = true := by decide
  obtain ⟨-, -, -, hparse, -⟩ := parse_completes_groups hderives hclosers
  exact ⟨_, hderives, hclosers, hparse⟩

end Tree

end ExprLang
