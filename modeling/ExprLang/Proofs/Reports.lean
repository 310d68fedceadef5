import ExprLang.Proofs.ParserMoves
import ExprLang.Proofs.SourceOrder
import Mathlib.Data.List.Perm.Subperm

/-! # No token is reported twice

Every report of the parser is about a token and stands at its position: at the token that has just
been read, at the end of file, or at an opening delimiter that is never closed. The invariant counts
the open groups among what can still be reported: the positions reported so far and those of the open
groups are positions of different tokens. Apart from the unclosed delimiters, reports come in the
order of the source. -/

namespace ExprLang

/-- Whether a diagnostic names an opening delimiter, which is then one that was not closed. -/
def Diagnostic.namesOpener : Diagnostic → Bool
  | unmatchedDelimiter _ text => [Delimiter.paren, .curly].any (·.opening.text == text)
  | _ => false

namespace Parse

/-! ### Open groups -/

/-- The positions of the opening delimiters of a stack, the innermost first. -/
def openPositions : List Frame → List Position
  | [] => []
  | .group _ pos :: stack => pos :: openPositions stack
  | _ :: stack => openPositions stack

def Phase.openPositions (phase : Phase) : List Position := Parse.openPositions phase.stack

theorem openPositions_trailing (root : Expr) (reported : Bool) :
    (Phase.trailing root reported).openPositions = [] := rfl

theorem openPositions_reduce (level : Nat) (stack : List Frame) (e : Expr) :
    openPositions (reduce level stack e).1 = openPositions stack := by
  refine reduce_invariant (P := fun s _ => openPositions s = openPositions stack) ?_ ?_ level rfl
  · exact fun op pos s x h => h
  · exact fun l left op pos s x h => h

theorem pos?_unwind (stack : List Frame) (e : Expr) :
    (unwind stack e).2.map Diagnostic.pos? = (openPositions stack).map some := by
  induction stack generalizing e with
  | nil => rfl
  | cons frame stack ih =>
    cases frame with
    | unary | binary => exact ih _
    | group delimiter pos => simp [unwind, ih, openPositions, Diagnostic.pos?]

theorem namesOpener_unwind (stack : List Frame) (e : Expr) :
    ∀ d ∈ (unwind stack e).2, d.namesOpener = true := by
  induction stack generalizing e with
  | nil => simp [unwind]
  | cons frame stack ih =>
    cases frame with
    | unary | binary => exact ih _
    | group delimiter pos =>
      simp only [unwind, List.forall_mem_cons]
      refine ⟨?_, ih _⟩
      cases delimiter <;> rfl

theorem openPositions_closeGroup {stack : List Frame} {s : Symbol} (e : Expr)
    (h : expectedCloser? stack = some s) :
    ((closeGroup stack e).openPositions).Sublist (openPositions stack) := by
  obtain ⟨delimiter, pos, rest, inner, hreduce, -, hclose⟩ := closeGroup_eq e h
  have hopen := openPositions_reduce 0 stack e
  rw [hreduce] at hopen
  rw [hclose, ← hopen]
  exact List.sublist_cons_self pos _

/-! ### One token -/

/-- After an operand no group is opened. -/
theorem Shifts.openPositions_sublist {stack : List Frame} {e : Expr} {t : Token} {next : Phase}
    (h : Shifts (.operator stack e) t next) :
    next.openPositions.Sublist (openPositions stack) := by
  cases h with
  | @binary _ _ s pos level =>
    have hopen := openPositions_reduce level stack e
    simp only [Phase.openPositions, Phase.stack, openPositions, hopen]
    exact List.Sublist.refl _
  | closer hs => exact openPositions_closeGroup e hs

theorem Shifts.openPositions_subperm {phase next : Phase} {t : Token} (h : Shifts phase t next) :
    next.openPositions.Subperm (phase.openPositions ++ t.pos?.toList) := by
  cases phase with
  | operand stack =>
    cases h with
    | literal | unary => exact (List.sublist_append_left _ _).subperm
    | @opener _ s delimiter pos =>
      exact (List.perm_append_singleton pos (openPositions stack)).symm.subperm
  | operator stack e =>
    exact (h.openPositions_sublist.trans (List.sublist_append_left _ _)).subperm
  | trailing => cases h

/-- A report at a token, next to groups that were open before it. -/
theorem subperm_of_report {opened before : List Position} (h : opened.Sublist before)
    {t : Token} {pos : Position} (hpos : t.pos? = some pos) :
    (some pos :: opened.map some).Subperm ((before ++ t.pos?.toList).map some) := by
  rw [hpos, Option.toList_some, List.map_append, List.map_singleton]
  exact (((h.map some).cons_cons (some pos)).subperm).trans
    (List.perm_append_singleton (some pos) _).symm.subperm

/-- What a token reports, and the groups that are open after it, have their positions from the groups
that were open and from the token. -/
theorem Moves.reports_subperm {trail : TokenTrail} {phase next : Phase} {t : Token}
    {ds : List Diagnostic} (h : Moves trail phase t next ds) :
    (ds.map Diagnostic.pos? ++ next.openPositions.map some).Subperm
      ((phase.openPositions ++ t.pos?.toList).map some) := by
  cases h with
  | shift hshift =>
    exact (List.map_subperm_map_iff fun _ _ => Option.some.inj).2 hshift.openPositions_subperm
  | stray => exact subperm_of_report (List.Sublist.refl _) rfl
  | misplaced hpos => exact subperm_of_report (List.Sublist.refl _) hpos
  | omitted hpos _ hshift => exact subperm_of_report hshift.openPositions_sublist hpos
  | @invalidOperand stack =>
    exact ((List.sublist_append_left (openPositions stack) []).map some).subperm
  -- every open group is reported, and then the token itself
  | @leave stack e t pos hpos =>
    rw [openPositions_trailing, List.map_nil, List.append_nil, List.map_append, pos?_unwind, hpos,
      List.map_append]
    exact List.Subperm.refl _
  | @leaveInvalid stack e =>
    rw [openPositions_trailing, List.map_nil, pos?_unwind, List.map_append]
    exact List.Subperm.refl _
  | unexpected hpos => exact subperm_of_report (List.Sublist.refl _) hpos
  | invalidTrailing | past => exact List.nil_subperm

theorem filter_unwind (stack : List Frame) (e : Expr) :
    (unwind stack e).2.filter (!·.namesOpener) = [] := by
  rw [List.filter_eq_nil_iff]
  intro d hd
  simp [namesOpener_unwind stack e d hd]

theorem sublist_of_report {t : Token} {d : Diagnostic} {pos : Position} (hd : d.pos? = some pos)
    (ht : t.pos? = some pos) :
    (([d].filter (!·.namesOpener)).map Diagnostic.pos?).Sublist (t.pos?.toList.map some) := by
  have hall : [d].map Diagnostic.pos? = t.pos?.toList.map some := by simp [hd, ht]
  rw [← hall]
  exact List.filter_sublist.map _

/-- Apart from unclosed delimiters, a token reports at most itself. -/
theorem Moves.reports_sublist {trail : TokenTrail} {phase next : Phase} {t : Token}
    {ds : List Diagnostic} (h : Moves trail phase t next ds) :
    ((ds.filter (!·.namesOpener)).map Diagnostic.pos?).Sublist (t.pos?.toList.map some) := by
  cases h with
  | shift | invalidOperand | invalidTrailing | past => exact List.nil_sublist _
  | stray => exact sublist_of_report rfl rfl
  | misplaced hpos => exact sublist_of_report rfl hpos
  | omitted hpos => exact sublist_of_report rfl hpos
  | unexpected hpos => exact sublist_of_report rfl hpos
  | leave hpos =>
    rw [List.filter_append, filter_unwind, List.nil_append]
    exact sublist_of_report rfl hpos
  | leaveInvalid =>
    rw [filter_unwind]
    exact List.nil_sublist _

/-! ### Whole runs -/

/-- How the diagnostics reported so far relate to the tokens read so far. -/
structure Accounts (phase : Phase) (us : List Token) (es : List Diagnostic) : Prop where
  once : (es.map Diagnostic.pos? ++ phase.openPositions.map some).Subperm
    ((us.filterMap Token.pos?).map some)
  inOrder : ((es.filter (!·.namesOpener)).map Diagnostic.pos?).Sublist
    ((us.filterMap Token.pos?).map some)

theorem filterMap_pos?_append (us : List Token) (t : Token) :
    (us ++ [t]).filterMap Token.pos? = us.filterMap Token.pos? ++ t.pos?.toList := by
  rw [List.filterMap_append]
  cases h : t.pos? <;> simp [h]

theorem Accounts.step {phase next : Phase} {t : Token} {us : List Token} {ds es : List Diagnostic}
    (h : Accounts phase us es)
    (honce : (ds.map Diagnostic.pos? ++ next.openPositions.map some).Subperm
      ((phase.openPositions ++ t.pos?.toList).map some))
    (horder : ((ds.filter (!·.namesOpener)).map Diagnostic.pos?).Sublist (t.pos?.toList.map some)) :
    Accounts next (us ++ [t]) (es ++ ds) where
  once := by
    have hnow := (List.Subperm.refl (es.map Diagnostic.pos?)).append honce
    have hbefore := h.once.append (List.Subperm.refl (t.pos?.toList.map some))
    rw [filterMap_pos?_append, List.map_append, List.map_append, List.append_assoc]
    rw [List.map_append, ← List.append_assoc (es.map Diagnostic.pos?) (phase.openPositions.map some)]
      at hnow
    exact hnow.trans hbefore
  inOrder := by
    rw [filterMap_pos?_append, List.filter_append, List.map_append, List.map_append]
    exact h.inOrder.append horder

theorem Accounts.move {trail : TokenTrail} {phase next : Phase} {t : Token} {us : List Token}
    {ds es : List Diagnostic} (h : Accounts phase us es) (hmove : Moves trail phase t next ds) :
    Accounts next (us ++ [t]) (es ++ ds) :=
  h.step hmove.reports_subperm hmove.reports_sublist

/-- The end of the source is reported like a token, if an operand is missing before it. -/
theorem Accounts.finish {phase : Phase} {us : List Token} {es : List Diagnostic}
    (h : Accounts phase us es) (trail : TokenTrail) (eof : Position) :
    Accounts (.trailing (Parse.finish trail eof phase).1 true) (us ++ [.endOfFile eof])
      (es ++ (Parse.finish trail eof phase).2) := by
  have heof : (Token.endOfFile eof).pos? = some eof := rfl
  cases phase with
  | operand stack =>
    have hds : (Parse.finish trail eof (.operand stack)).2 =
        [expectedExpression trail eof none] ++ (unwind stack (.placeholder eof)).2 := rfl
    rw [hds]
    refine h.step ?_ ?_
    · rw [List.map_append, pos?_unwind, openPositions_trailing, List.map_nil, List.append_nil]
      exact subperm_of_report (List.Sublist.refl (openPositions stack)) heof
    · rw [List.filter_append, filter_unwind, List.append_nil]
      exact sublist_of_report rfl heof
  | operator stack e =>
    refine h.step ?_ ?_
    · rw [Parse.finish, pos?_unwind, openPositions_trailing, List.map_nil, List.append_nil]
      exact ((List.sublist_append_left _ _).map some).subperm
    · rw [Parse.finish, filter_unwind]
      exact List.nil_sublist _
  | trailing root reported => exact h.step List.nil_subperm (List.nil_sublist _)

theorem eofPos_append {us : List Token} (h : ∀ t ∈ us, t.isEndOfFile = false) (eof : Position)
    (rest : List Token) (trail : TokenTrail) :
    eofPos trail (us ++ .endOfFile eof :: rest) = eof := by
  induction us generalizing trail with
  | nil => rfl
  | cons t us ih =>
    have hrest := ih (fun u hu => h u (List.mem_cons_of_mem t hu)) (trail.after t)
    cases t with
    | endOfFile => simp [Token.isEndOfFile] at h
    | symbol | keyword | literal | invalid => exact hrest

theorem body_append {us : List Token} (h : ∀ t ∈ us, t.isEndOfFile = false) (eof : Position)
    (rest : List Token) : Token.body (us ++ .endOfFile eof :: rest) = us := by
  unfold Token.body
  rw [List.takeWhile_append_of_pos (by simpa using h)]
  simp [Token.isEndOfFile]

theorem accounts_parse {us : List Token} (h : ∀ t ∈ us, t.isEndOfFile = false) (eof : Position) :
    Accounts (.trailing (Tree.parse (us ++ [.endOfFile eof])).1.root true) (us ++ [.endOfFile eof])
      (Tree.parse (us ++ [.endOfFile eof])).2 := by
  have hstart : Accounts (.operand []) [] [] := ⟨List.Subperm.refl _, List.Sublist.refl _⟩
  have hsteps := steps_invariant Accounts.move [] [] hstart TokenTrail.start us
  unfold Tree.parse
  rw [run_eq, body_append h, eofPos_append h]
  exact hsteps.finish _ _

end Parse

namespace Tree

/-- The parser reports no token twice. About the tokens of any source, its diagnostics have different
positions, each of them that of a token or of the end of file, so that there is at most one for each
token and one for the end. Apart from those that name an opening delimiter, they are recorded in the
order of the source. -/
theorem parse_reports_once (source : String) :
    ((parse (Token.scan source)).2.map Diagnostic.pos?).Nodup ∧
    (∀ d ∈ (parse (Token.scan source)).2,
      ∃ t ∈ Token.scan source, ∃ p, t.pos? = some p ∧ d.pos? = some p) ∧
    (parse (Token.scan source)).2.length ≤ (Token.body (Token.scan source)).length + 1 ∧
    ((parse (Token.scan source)).2.filter (!·.namesOpener)).Pairwise
      (fun d e => ∃ p q, d.pos? = some p ∧ e.pos? = some q ∧ p.Before q) := by
  obtain ⟨us, eof, hscan, hus, hincrease⟩ := Token.scan_positions_increase source
  obtain ⟨honce, horder⟩ := Parse.accounts_parse hus eof
  rw [← hscan, Parse.openPositions_trailing, List.map_nil, List.append_nil] at honce
  rw [← hscan] at horder
  have hbody : (Token.body (Token.scan source)).length + 1 = (Token.scan source).length := by
    rw [hscan, Parse.body_append hus, List.length_append, List.length_singleton]
  refine ⟨?_, ?_, ?_, ?_⟩
  · have hnodup : (((Token.scan source).filterMap Token.pos?).map some).Nodup :=
      List.pairwise_map.2 (hincrease.imp fun hbefore heq => hbefore.ne (Option.some.inj heq))
    obtain ⟨reported, hperm, hsublist⟩ := honce
    exact hperm.nodup_iff.1 (hnodup.sublist hsublist)
  · intro d hd
    obtain ⟨p, hp, hsome⟩ := List.mem_map.1 (honce.subset (List.mem_map_of_mem hd))
    obtain ⟨t, ht, hpos⟩ := List.mem_filterMap.1 hp
    exact ⟨t, ht, p, hpos, hsome.symm⟩
  · have hlength := honce.length_le
    rw [List.length_map, List.length_map] at hlength
    rw [hbody]
    exact hlength.trans (List.length_filterMap_le _ _)
  · have hpairs : (((Token.scan source).filterMap Token.pos?).map some).Pairwise
        (fun o o' => ∃ p q, o = some p ∧ o' = some q ∧ p.Before q) :=
      List.pairwise_map.2 (hincrease.imp fun hbefore => ⟨_, _, rfl, rfl, hbefore⟩)
    exact List.pairwise_map.1 (hpairs.sublist horder)

end Tree

end ExprLang
