import ExprLang.Expr.Parser
import ExprLang.Proofs.Nesting
import ExprLang.Proofs.Recovery
import ExprLang.Proofs.Reports

/-! # Delimiters are matched or reported

The delimiters that the parser does not report are properly nested. At every token, those read so far
are nested but for the openers that are still on the stack: a closer that fits takes the innermost of
them away, any other closer is reported, and so are the openers that are left when the expression
ends. -/

namespace ExprLang

namespace Parse

/-! ### The stack -/

theorem openDelimiters_reduce (level : Nat) (stack : List Frame) (e : Expr) :
    openDelimiters (reduce level stack e).1 = openDelimiters stack := by
  refine reduce_invariant (P := fun s _ => openDelimiters s = openDelimiters stack) ?_ ?_ level rfl
  · exact fun op pos s x h => h
  · exact fun l left op pos s x h => h

/-- What is left when the open groups are reported is nested. -/
theorem nested_unwind {ts : List Token} (stack : List Frame) (e : Expr)
    (h : NestedBut (openDelimiters stack) ts) (hts : Token.Distinct ts) :
    Nested (Token.withoutUnmatched (unwind stack e).2 ts) := by
  induction stack generalizing ts e with
  | nil =>
    rw [unwind, Token.withoutUnmatched_eq_self (by simp)]
    exact h.nested
  | cons frame stack ih =>
    cases frame with
    | unary | binary => exact ih _ h hts
    | group delimiter pos =>
      have hreport := h.report hts delimiter.opening.text
      have hrest := ih (.grouping e) hreport (hts.sublist List.filter_sublist)
      rw [← Token.withoutUnmatched_append] at hrest
      exact hrest

/-! ### One token -/

theorem isBracket_symbol (s : Symbol) (pos : Position) :
    (Token.symbol s pos).isBracket = (s.isCloser || (Delimiter.ofOpening? s).isSome) := by
  cases s <;> rfl

theorem isBracket_of_level? {s : Symbol} {level : Nat} (h : s.level? = some level)
    (pos : Position) : (Token.symbol s pos).isBracket = false := by
  cases s <;> first | rfl | simp [Symbol.level?] at h

theorem isBracket_of_isPrefixOperator {s : Symbol} (h : s.isPrefixOperator = true)
    (pos : Position) : (Token.symbol s pos).isBracket = false := by
  cases s <;> first | rfl | simp [Symbol.isPrefixOperator] at h

theorem opensGroup_of_isBracket {t : Token} (h : t.isBracket = false) : t.opensGroup = false := by
  cases t with
  | symbol s pos => cases s <;> first | rfl | simp [Token.isBracket] at h
  | keyword | literal | endOfFile | invalid => rfl

theorem Shifts.nestedBut {phase next : Phase} {t : Token} {ts : List Token}
    (h : Shifts phase t next) (hts : NestedBut (openDelimiters phase.stack) ts) :
    NestedBut (openDelimiters next.stack) (ts ++ [t]) := by
  cases h with
  | literal => exact hts.append (.other rfl .nil)
  | @unary stack s pos hs => exact hts.append (.other (isBracket_of_isPrefixOperator hs pos) .nil)
  | @opener stack s delimiter pos hs =>
    rw [Delimiter.ofOpening?_eq_some_iff.1 hs]
    exact hts.push delimiter pos
  | @binary stack e s pos level hs =>
    simp only [Phase.stack, openDelimiters, openDelimiters_reduce]
    exact hts.append (.other (isBracket_of_level? hs pos) .nil)
  | @closer stack e s pos hs =>
    obtain ⟨delimiter, p, rest, inner, hreduce, rfl, hclose⟩ := closeGroup_eq e hs
    have hopen := openDelimiters_reduce 0 stack e
    rw [hreduce] at hopen
    rw [Phase.stack, ← hopen] at hts
    rw [hclose]
    exact hts.close pos

/-- Brackets are never used up in place of an operand. -/
theorem isBracket_of_misplaced {stack : List Frame} {t : Token} (hstray : stray? stack t = none)
    (hoperand : ∀ next, ¬ Shifts (.operand stack) t next)
    (hoperator : ∀ e next, ¬ Shifts (.operator stack e) t next) : t.isBracket = false := by
  cases t with
  | keyword | literal | endOfFile | invalid => rfl
  | symbol s pos =>
    have hopening : Delimiter.ofOpening? s = none := by
      rw [Option.eq_none_iff_forall_ne_some]
      exact fun delimiter hs => hoperand _ (.opener hs)
    have hcloser : s.isCloser = false := by
      rcases (stray?_eq_none_iff stack s pos).1 hstray with hcloser | hexpected
      · exact hcloser
      · exact absurd (.closer hexpected) (hoperator (.placeholder pos) _)
    simp [isBracket_symbol, hcloser, hopening]

/-- The groups that are open or complete. -/
def Phase.groups (phase : Phase) : Nat := phase.nodes.count .grouping

theorem groups_unwind (stack : List Frame) (e : Expr) (reported : Bool) :
    (Phase.trailing (unwind stack e).1 reported).groups = (Phase.operator stack e).groups :=
  (nodes_unwind stack e).count_eq _

theorem groups_placeholder (stack : List Frame) (pos : Position) :
    (Phase.operator stack (.placeholder pos)).groups = (Phase.operand stack).groups := by
  simp [Phase.groups, Phase.nodes, Expr.placeholder, Expr.preorder]

theorem Shifts.groups_eq {phase next : Phase} {t : Token} (h : Shifts phase t next) :
    next.groups = phase.groups + [t].countP (·.opensGroup) := by
  cases h with
  | literal => simp [Phase.groups, Phase.nodes, Expr.preorder, Token.opensGroup]
  | @unary stack s pos hs =>
    have ht := opensGroup_of_isBracket (isBracket_of_isPrefixOperator hs pos)
    simp [Phase.groups, Phase.nodes, Frame.nodes, ht]
  | @opener stack s delimiter pos hs =>
    have ht : (Token.symbol s pos).opensGroup = true := by
      rw [Delimiter.ofOpening?_eq_some_iff.1 hs]
      cases delimiter <;> rfl
    simp [Phase.groups, Phase.nodes, Frame.nodes, ht]
  | @binary stack e s pos level hs =>
    have ht := opensGroup_of_isBracket (isBracket_of_level? hs pos)
    have hreduce := (nodes_reduce level stack e).count_eq .grouping
    rw [List.count_append] at hreduce
    simp [Phase.groups, Phase.nodes, Frame.nodes, ht, ← hreduce, Nat.add_comm]
  | @closer stack e s pos hs =>
    obtain ⟨delimiter, _, _, _, _, rfl, _⟩ := closeGroup_eq e hs
    have ht : (Token.symbol delimiter.closing pos).opensGroup = false := by
      cases delimiter <;> rfl
    have hclose := (nodes_closeGroup stack e).count_eq .grouping
    simpa [Phase.groups, Phase.nodes, ht] using hclose

/-! ### What the tokens so far have come to -/

/-- Whether the first token after the expression has been reported. -/
def Phase.isOver : Phase → Bool
  | trailing _ reported => reported
  | _ => false

/-- A token that no diagnostic so far is about, and that stands apart from the tokens so far. -/
structure Fresh (us : List Token) (es : List Diagnostic) (t : Token) : Prop where
  distinct : Token.Distinct (us ++ [t])
  unreported : ∀ d ∈ es, d.isAt t = false

theorem Accounts.fresh {phase : Phase} {us : List Token} {es : List Diagnostic} {t : Token}
    (h : Accounts phase us es) (hdistinct : Token.Distinct (us ++ [t])) : Fresh us es t := by
  refine ⟨hdistinct, fun d hd => ?_⟩
  rw [← Bool.not_eq_true, Diagnostic.isAt_iff]
  rintro ⟨p, hdp, htp⟩
  have hmem : some p ∈ es.map Diagnostic.pos? ++ phase.openPositions.map some :=
    List.mem_append_left _ (List.mem_map.2 ⟨d, hd, hdp⟩)
  obtain ⟨q, hq, hqp⟩ := List.mem_map.1 (h.once.subset hmem)
  obtain ⟨u, hu, huq⟩ := List.mem_filterMap.1 hq
  exact hdistinct.pos?_ne htp u (List.mem_append_left _ hu) (huq.trans hqp)

theorem Fresh.apart {us : List Token} {es : List Diagnostic} {t : Token} (h : Fresh us es t)
    {d : Diagnostic} (hd : d.isAt t = true) : ∀ u ∈ us, d.isAt u = false := by
  intro u hu
  rw [← Bool.not_eq_true, Diagnostic.isAt_iff]
  rintro ⟨p, hdp, hup⟩
  obtain ⟨q, hdq, htq⟩ := Diagnostic.isAt_iff.1 hd
  rw [hdp] at hdq
  exact h.distinct.pos?_ne htq u (List.mem_append_left _ hu) (hup.trans hdq)

/-- What the tokens read so far have come to. Before the expression is over nothing is cut off. -/
structure Balances (phase : Phase) (us : List Token) (es : List Diagnostic) : Prop where
  nested : NestedBut (openDelimiters phase.stack)
    (Token.withoutUnmatched es (Token.beforeUnexpected es us))
  groups : phase.groups = (Token.beforeUnexpected es us).countP (·.opensGroup)
  ongoing : phase.isOver = false → ∀ d ∈ es, d.isUnexpectedToken = false
  ended : phase.isOver = true → es.countP (·.isUnexpectedToken) = 1 ∧
    ∃ t ∈ us, ∃ d ∈ es, d.isUnexpectedToken = true ∧ d.isAt t = true

theorem Balances.whole {phase : Phase} {us : List Token} {es : List Diagnostic}
    (h : Balances phase us es) (hphase : phase.isOver = false) :
    NestedBut (openDelimiters phase.stack) (Token.withoutUnmatched es us) ∧
      phase.groups = us.countP (·.opensGroup) := by
  have hread := Token.beforeUnexpected_eq_self (h.ongoing hphase) us
  have hnested := h.nested
  have hgroups := h.groups
  rw [hread] at hnested hgroups
  exact ⟨hnested, hgroups⟩

theorem Balances.of_whole {phase : Phase} {us : List Token} {es : List Diagnostic}
    (hphase : phase.isOver = false) (hes : ∀ d ∈ es, d.isUnexpectedToken = false)
    (hnested : NestedBut (openDelimiters phase.stack) (Token.withoutUnmatched es us))
    (hgroups : phase.groups = us.countP (·.opensGroup)) : Balances phase us es := by
  rw [← Token.beforeUnexpected_eq_self hes us] at hnested hgroups
  exact ⟨hnested, hgroups, fun _ => hes, fun hover => by simp [hphase] at hover⟩

/-- A token before the end of the expression. -/
theorem Balances.keep {phase next : Phase} {us : List Token} {es ds : List Diagnostic} {t : Token}
    (h : Balances phase us es) (hfresh : Fresh us es t) (hphase : phase.isOver = false)
    (hnext : next.isOver = false) (hds : ∀ d ∈ ds, d.isUnexpectedToken = false)
    (hnested : ∀ ts, NestedBut (openDelimiters phase.stack) ts → Token.Distinct (ts ++ [t]) →
      NestedBut (openDelimiters next.stack) (Token.withoutUnmatched ds (ts ++ [t])))
    (hgroups : next.groups = phase.groups + [t].countP (·.opensGroup)) :
    Balances next (us ++ [t]) (es ++ ds) := by
  obtain ⟨hbefore, hcount⟩ := h.whole hphase
  have hkept : Token.withoutUnmatched es [t] = [t] := by
    refine Token.withoutUnmatched_eq_self fun d hd _ u hu => ?_
    rw [List.mem_singleton.1 hu]
    exact hfresh.unreported d hd
  refine .of_whole hnext (List.forall_mem_append.2 ⟨h.ongoing hphase, hds⟩) ?_ ?_
  · rw [Token.withoutUnmatched_append, Token.withoutUnmatched_append_tokens, hkept]
    have hsublist : (Token.withoutUnmatched es us).Sublist us := List.filter_sublist
    exact hnested _ hbefore (hfresh.distinct.sublist (hsublist.append (List.Sublist.refl _)))
  · rw [List.countP_append, hgroups, hcount]

/-- The first token after the expression is cut off, with the groups that are open before it. -/
theorem Balances.cut {phase : Phase} {us : List Token} {es ds : List Diagnostic} {t : Token}
    {pos : Position} (h : Balances phase us es) (hfresh : Fresh us es t)
    (hphase : phase.isOver = false) (hpos : t.pos? = some pos)
    (hds : ∀ d ∈ ds, d.isUnexpectedToken = false) {root : Expr}
    (hnested : ∀ ts, NestedBut (openDelimiters phase.stack) ts → Token.Distinct ts →
      Nested (Token.withoutUnmatched ds ts))
    (hgroups : (Phase.trailing root true).groups = phase.groups) :
    Balances (.trailing root true) (us ++ [t]) (es ++ (ds ++ [unexpectedToken pos t])) := by
  have hes := h.ongoing hphase
  have hat : (unexpectedToken pos t).isAt t = true := Diagnostic.isAt_iff.2 ⟨pos, rfl, hpos⟩
  have hnamed := Diagnostic.isUnexpectedToken_unexpectedToken pos t
  have hcut : Token.beforeUnexpected (es ++ (ds ++ [unexpectedToken pos t])) (us ++ [t]) = us := by
    unfold Token.beforeUnexpected
    rw [List.takeWhile_append_of_pos]
    · simp [hat, hnamed]
    · intro u hu
      have hapart := hfresh.apart hat u hu
      simp only [Bool.not_eq_true', List.any_eq_false, Bool.and_eq_true, not_and, Bool.not_eq_true,
        List.mem_append, List.mem_singleton]
      rintro d (hd | hd | rfl) hunexpected
      · simp [hes d hd] at hunexpected
      · simp [hds d hd] at hunexpected
      · exact hapart
  obtain ⟨hbefore, hcount⟩ := h.whole hphase
  refine ⟨?_, ?_, fun hover => by simp [Phase.isOver] at hover, fun _ => ⟨?_, ?_⟩⟩
  · have hsublist : (Token.withoutUnmatched es us).Sublist us := List.filter_sublist
    have hdistinct := hfresh.distinct.sublist (hsublist.trans (List.sublist_append_left us [t]))
    have hlast : Token.withoutUnmatched [unexpectedToken pos t]
        (Token.withoutUnmatched ds (Token.withoutUnmatched es us)) =
        Token.withoutUnmatched ds (Token.withoutUnmatched es us) := by
      refine Token.withoutUnmatched_eq_self fun d hd hkind => ?_
      rw [List.mem_singleton.1 hd] at hkind
      cases hkind
    rw [hcut, Token.withoutUnmatched_append, Token.withoutUnmatched_append, hlast]
    exact .nil (hnested _ hbefore hdistinct)
  · rw [hcut, hgroups, hcount]
  · simp [Diagnostic.countP_isUnexpectedToken hes, Diagnostic.countP_isUnexpectedToken hds, hnamed]
  · exact ⟨t, by simp, unexpectedToken pos t, by simp, hnamed, hat⟩

/-- Tokens after the one that is cut off make no difference. -/
theorem Balances.past {phase : Phase} {us : List Token} {es : List Diagnostic}
    (h : Balances phase us es) (hphase : phase.isOver = true) (t : Token) :
    Balances phase (us ++ [t]) es := by
  obtain ⟨hone, u, hu, d, hd, hnamed, hat⟩ := h.ended hphase
  have hcut : Token.beforeUnexpected es (us ++ [t]) = Token.beforeUnexpected es us := by
    unfold Token.beforeUnexpected
    rw [List.takeWhile_append, if_neg]
    intro hlength
    have hself := (List.takeWhile_prefix _).eq_of_length hlength
    rw [List.takeWhile_eq_self_iff] at hself
    have hu := hself u hu
    simp only [Bool.not_eq_true', List.any_eq_false] at hu
    exact hu d hd (by simp [hnamed, hat])
  refine ⟨?_, ?_, h.ongoing, fun _ => ⟨hone, u, List.mem_append_left _ hu, d, hd, hnamed, hat⟩⟩
  · rw [hcut]
    exact h.nested
  · rw [hcut]
    exact h.groups

theorem Shifts.isOver_eq {phase next : Phase} {t : Token} (h : Shifts phase t next) :
    phase.isOver = false ∧ next.isOver = false := by
  cases h with
  | literal | unary | opener | binary => exact ⟨rfl, rfl⟩
  | @closer stack e s pos hs =>
    obtain ⟨_, _, _, _, _, _, hclose⟩ := closeGroup_eq e hs
    rw [hclose]
    exact ⟨rfl, rfl⟩

theorem isUnexpectedToken_unwind (stack : List Frame) (e : Expr) :
    ∀ d ∈ (unwind stack e).2, d.isUnexpectedToken = false := by
  intro d hd
  have hopener := namesOpener_unwind stack e d hd
  cases d with
  | unmatchedDelimiter => rfl
  | unknownToken | syntaxError | unterminatedString | parseError | unknownOperator | other =>
    simp [Diagnostic.namesOpener] at hopener

theorem withoutUnmatched_expectedExpression (trail : TokenTrail) (pos : Position)
    (found : Option Token) (ts : List Token) :
    Token.withoutUnmatched [expectedExpression trail pos found] ts = ts := by
  refine Token.withoutUnmatched_eq_self fun d hd hkind => ?_
  rw [List.mem_singleton.1 hd] at hkind
  cases hkind

theorem Balances.move {trail : TokenTrail} {phase next : Phase} {us : List Token}
    {es ds : List Diagnostic} {t : Token} (h : Balances phase us es) (hfresh : Fresh us es t)
    (hmove : Moves trail phase t next ds) : Balances next (us ++ [t]) (es ++ ds) := by
  have hquiet : ∀ ts, Token.withoutUnmatched [] ts = ts := fun ts =>
    Token.withoutUnmatched_eq_self (by simp)
  have hexpected : ∀ pos, ∀ d ∈ [expectedExpression trail pos (some t)],
      d.isUnexpectedToken = false := by
    intro pos d hd
    rw [List.mem_singleton.1 hd]
    exact Diagnostic.isUnexpectedToken_expectedExpression trail pos (some t)
  cases hmove with
  | shift hshift =>
    refine h.keep hfresh hshift.isOver_eq.1 hshift.isOver_eq.2 (by simp) ?_ hshift.groups_eq
    intro ts hts _
    rw [hquiet]
    exact hshift.nestedBut hts
  | @stray _ s pos hphase hcloser _ =>
    have hover : phase.isOver = false := by
      cases phase with
      | operand | operator => rfl
      | trailing root reported =>
        cases reported with
        | false => rfl
        | true => exact absurd rfl (hphase root)
    have hopens : (Token.symbol s pos).opensGroup = false := by
      cases s <;> first | rfl | simp [Symbol.isCloser] at hcloser
    refine h.keep hfresh hover hover (by simp [Diagnostic.isUnexpectedToken]) ?_ (by simp [hopens])
    intro ts hts hdistinct
    rw [Token.withoutUnmatched_report hdistinct rfl, List.append_nil]
    exact hts
  | @misplaced stack t pos _ hstray hoperand hoperator =>
    have hbracket := isBracket_of_misplaced hstray hoperand hoperator
    refine h.keep hfresh rfl rfl (hexpected pos) ?_ ?_
    · intro ts hts _
      rw [withoutUnmatched_expectedExpression]
      exact hts.append (.other hbracket .nil)
    · simp [groups_placeholder, opensGroup_of_isBracket hbracket]
  | @omitted stack t pos next _ _ hshift =>
    refine h.keep hfresh rfl hshift.isOver_eq.2 (hexpected pos) ?_ ?_
    · intro ts hts _
      rw [withoutUnmatched_expectedExpression]
      exact hshift.nestedBut hts
    · rw [hshift.groups_eq, groups_placeholder]
  | @invalidOperand stack fault =>
    refine h.keep hfresh rfl rfl (by simp) ?_ ?_
    · intro ts hts _
      rw [hquiet]
      exact hts.append (.other rfl .nil)
    · simp [groups_placeholder, Token.opensGroup]
  | @leave stack e t pos hpos =>
    exact h.cut hfresh rfl hpos (isUnexpectedToken_unwind stack e)
      (fun ts hts hdistinct => nested_unwind stack e hts hdistinct) (groups_unwind stack e true)
  | @leaveInvalid stack e fault =>
    refine h.keep hfresh rfl rfl (isUnexpectedToken_unwind stack e) ?_ ?_
    · intro ts hts hdistinct
      exact .nil (nested_unwind stack e (hts.append (.other rfl .nil)) hdistinct)
    · simp [groups_unwind, Token.opensGroup]
  | @unexpected root t pos hpos =>
    show Balances (.trailing root true) (us ++ [t]) (es ++ ([] ++ [unexpectedToken pos t]))
    refine h.cut hfresh rfl hpos (by simp) ?_ rfl
    intro ts hts _
    rw [hquiet]
    exact hts.nested
  | @invalidTrailing root fault =>
    refine h.keep hfresh rfl rfl (by simp) ?_ (by simp [Token.opensGroup])
    intro ts hts _
    rw [hquiet]
    exact hts.append (.other rfl .nil)
  | past =>
    rw [List.append_nil]
    exact h.past rfl t

/-! ### Whole runs -/

/-- Reports at the end of the source, where no token is read. -/
theorem Balances.report {phase next : Phase} {us : List Token} {es ds : List Diagnostic}
    (h : Balances phase us es) (hus : Token.Distinct us) (hphase : phase.isOver = false)
    (hnext : next.isOver = false) (hds : ∀ d ∈ ds, d.isUnexpectedToken = false)
    (hnested : ∀ ts, NestedBut (openDelimiters phase.stack) ts → Token.Distinct ts →
      NestedBut (openDelimiters next.stack) (Token.withoutUnmatched ds ts))
    (hgroups : next.groups = phase.groups) : Balances next us (es ++ ds) := by
  obtain ⟨hbefore, hcount⟩ := h.whole hphase
  refine .of_whole hnext (List.forall_mem_append.2 ⟨h.ongoing hphase, hds⟩) ?_ ?_
  · rw [Token.withoutUnmatched_append]
    exact hnested _ hbefore (hus.sublist List.filter_sublist)
  · rw [hgroups, hcount]

theorem Balances.unwind {stack : List Frame} {e : Expr} {us : List Token} {es : List Diagnostic}
    (h : Balances (.operator stack e) us es) (hus : Token.Distinct us) :
    Balances (.trailing (Parse.unwind stack e).1 false) us (es ++ (Parse.unwind stack e).2) :=
  h.report hus rfl rfl (isUnexpectedToken_unwind stack e)
    (fun _ hts hdistinct => .nil (nested_unwind stack e hts hdistinct)) (groups_unwind stack e false)

theorem Balances.expect {stack : List Frame} {us : List Token} {es : List Diagnostic}
    (h : Balances (.operand stack) us es) (hus : Token.Distinct us) (trail : TokenTrail)
    (eof : Position) :
    Balances (.operator stack (.placeholder eof)) us (es ++ [expectedExpression trail eof none]) := by
  refine h.report hus rfl rfl ?_ ?_ (groups_placeholder stack eof)
  · intro d hd
    rw [List.mem_singleton.1 hd]
    exact Diagnostic.isUnexpectedToken_expectedExpression trail eof none
  · intro ts hts _
    rw [withoutUnmatched_expectedExpression]
    exact hts

theorem Balances.finish {phase : Phase} {us : List Token} {es : List Diagnostic}
    (h : Balances phase us es) (hus : Token.Distinct us) (trail : TokenTrail) (eof : Position) :
    Balances (.trailing (Parse.finish trail eof phase).1 phase.isOver) us
      (es ++ (Parse.finish trail eof phase).2) := by
  cases phase with
  | operand stack =>
    have hend := (h.expect hus trail eof).unwind hus
    rw [List.append_assoc] at hend
    exact hend
  | operator stack e => exact h.unwind hus
  | trailing root reported =>
    rw [Parse.finish, List.append_nil]
    exact h

theorem balances_steps {us : List Token} (hus : Token.Distinct us) (trail : TokenTrail) :
    Balances (steps trail (.operand []) us).1 us (steps trail (.operand []) us).2 := by
  have hstart : Accounts (.operand []) [] [] := ⟨List.Subperm.refl _, List.Sublist.refl _⟩
  have hsteps := steps_invariant
    (P := fun phase us es => Accounts phase us es ∧ (Token.Distinct us → Balances phase us es))
    ?_ [] [] ⟨hstart, fun _ => ⟨.nil .nil, rfl, by simp, by simp [Phase.isOver]⟩⟩ trail us
  · exact hsteps.2 hus
  · intro trail phase t next ds us es h hmove
    refine ⟨h.1.move hmove, fun hdistinct => ?_⟩
    have hbefore := h.2 (hdistinct.sublist (List.sublist_append_left us [t]))
    exact hbefore.move (h.1.fresh hdistinct) hmove

theorem balances_parse {us : List Token} (hus : Token.Distinct us)
    (hbody : ∀ t ∈ us, t.isEndOfFile = false) (eof : Position) :
    ∃ ended, Balances (.trailing (Tree.parse (us ++ [.endOfFile eof])).1.root ended) us
      (Tree.parse (us ++ [.endOfFile eof])).2 := by
  have hsteps := balances_steps hus TokenTrail.start
  unfold Tree.parse
  rw [run_eq, body_append hbody, eofPos_append hbody]
  exact ⟨_, hsteps.finish hus _ eof⟩

end Parse

/-- The delimiter stack of a parser is empty after every parse that returns a tree. -/
theorem Parser.openDelimiters_read {limit : Nat} {log : DiagnosticLog} {trail : TokenTrail}
    {phase : Parse.Phase} {tokens : List Token} {tree : Tree}
    (h : (read limit log trail phase tokens).1 = some tree) :
    (read limit log trail phase tokens).2.1.openDelimiters = [] := by
  induction tokens generalizing log trail phase with
  | nil => rfl
  | cons t ts ih =>
    cases t with
    | endOfFile pos => rfl
    | symbol | keyword | literal | invalid =>
      simp only [read] at h ⊢
      split at h
      · next hstack =>
        rw [if_pos hstack]
        exact ih h
      · simp at h

namespace Tree

def reports (source : String) : List Diagnostic := (parse (Token.scan source)).2

/-- The tokens of a source before the one that is reported as unexpected. -/
def expectedTokens (source : String) : List Token :=
  Token.beforeUnexpected (reports source) (Token.body (Token.scan source))

/-- Every delimiter is matched or reported. In the tokens of any source, up to the one that is
reported as unexpected (there is at most one), the brackets that are not reported as unmatched are
properly nested; a closing square bracket is never left. No delimiter stays on the stack of a parser:
every opener before the unexpected token has become a group of the tree, and the stack is empty after
every parse that returns. -/
theorem parse_matches_or_reports (source : String) :
    Nested (Token.withoutUnmatched (reports source) (expectedTokens source)) ∧
    (∀ pos, .symbol .rightSquare pos ∉
      Token.withoutUnmatched (reports source) (expectedTokens source)) ∧
    (reports source).countP (·.isUnexpectedToken) ≤ 1 ∧
    (parse (Token.scan source)).1.root.groups = (expectedTokens source).countP (·.opensGroup) ∧
    ∀ (parser : Parser) (limit : Nat) (log : DiagnosticLog) (tokens : List Token) (tree : Tree),
      (parser.parse limit log tokens).1 = some tree →
        (parser.parse limit log tokens).2.1.openDelimiters = [] := by
  obtain ⟨us, eof, hscan, hbody, hincrease⟩ := Token.scan_positions_increase source
  have hdistinct : Token.Distinct (Token.scan source) := hincrease.imp Position.Before.ne
  rw [hscan] at hdistinct
  have hus := hdistinct.sublist (List.sublist_append_left us [.endOfFile eof])
  obtain ⟨ended, hnested, hgroups, hongoing, hended⟩ := Parse.balances_parse hus hbody eof
  simp only [reports, expectedTokens, hscan, Parse.body_append hbody]
  have hall := hnested.nested
  refine ⟨hall, hall.rightSquare_notMem, ?_, hgroups, fun parser limit log tokens tree h => ?_⟩
  · cases ended with
    | false =>
      rw [Diagnostic.countP_isUnexpectedToken (hongoing rfl)]
      exact Nat.zero_le 1
    | true => exact (hended rfl).1.le
  · exact Parser.openDelimiters_read h

end Tree

end ExprLang
