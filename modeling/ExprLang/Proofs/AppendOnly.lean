import ExprLang.Expr.Parser
import ExprLang.Proofs.ParserMoves
import ExprLang.Proofs.Scanning

/-! # Parsers and scanners only append

What a parse adds to the log, its tree and the state in which it leaves the parser depend on the tokens
alone: not on what the log holds already, and not on the parses before it, which may have been given
up half way. A parse is given up exactly when the whole tree would be too deep, because every frame
of the stack is a node above whatever comes next. Scanning token by token records what the tokens
drawn so far carry, and nothing else. -/

namespace ExprLang

theorem Expr.depth_pos (e : Expr) : 0 < e.depth := by
  cases e <;> simp [Expr.depth]

theorem DiagnosticLog.append_append (log : DiagnosticLog) (ds es : List Diagnostic) :
    (log.append ds).append es = log.append (ds ++ es) := by
  simp [append]

namespace Parse

/-! ### A deep stack makes a deep tree -/

/-- The depth of the tree that a stack gives, on top of an operand of a given depth. -/
def stackDepth : List Frame → Nat → Nat
  | [], n => n
  | .unary _ _ :: stack, n => stackDepth stack (n + 1)
  | .binary _ left _ _ :: stack, n => stackDepth stack (max left.depth n + 1)
  | .group _ _ :: stack, n => stackDepth stack (n + 1)

/-- The least depth of a tree that a phase can lead to. -/
def Phase.reach : Phase → Nat
  | operand stack => stackDepth stack 1
  | operator stack e => stackDepth stack e.depth
  | trailing root _ => root.depth

theorem stackDepth_mono {m n : Nat} (h : m ≤ n) (stack : List Frame) :
    stackDepth stack m ≤ stackDepth stack n := by
  induction stack generalizing m n with
  | nil => exact h
  | cons frame stack ih =>
    cases frame with
    | unary | group => exact ih (by omega)
    | binary level left => exact ih (by omega)

theorem length_add_le_stackDepth (stack : List Frame) (n : Nat) :
    stack.length + n ≤ stackDepth stack n := by
  induction stack generalizing n with
  | nil => simp [stackDepth]
  | cons frame stack ih =>
    rw [List.length_cons]
    cases frame with
    | unary | group =>
      have hrest := ih (n + 1)
      simp only [stackDepth]
      omega
    | binary level left =>
      have hrest := ih (max left.depth n + 1)
      simp only [stackDepth]
      omega

theorem length_stack_lt_reach (phase : Phase) : phase.stack.length < phase.reach := by
  cases phase with
  | operand stack => exact length_add_le_stackDepth stack 1
  | operator stack e =>
    have hstack := length_add_le_stackDepth stack e.depth
    have hpos := e.depth_pos
    simp only [Phase.stack, Phase.reach]
    omega
  | trailing root => exact root.depth_pos

theorem stackDepth_reduce (level : Nat) (stack : List Frame) (e : Expr) :
    stackDepth (reduce level stack e).1 (reduce level stack e).2.depth =
      stackDepth stack e.depth := by
  refine reduce_invariant (P := fun s x => stackDepth s x.depth = stackDepth stack e.depth)
    ?_ ?_ level rfl
  · exact fun op pos s x h => h
  · exact fun l left op pos s x h => h

theorem depth_unwind (stack : List Frame) (e : Expr) :
    (unwind stack e).1.depth = stackDepth stack e.depth := by
  induction stack generalizing e with
  | nil => rfl
  | cons frame stack ih => cases frame <;> exact ih _

theorem depth_finish (trail : TokenTrail) (eof : Position) (phase : Phase) :
    (finish trail eof phase).1.depth = phase.reach := by
  cases phase with
  | operand stack => exact depth_unwind stack (.placeholder eof)
  | operator stack e => exact depth_unwind stack e
  | trailing => rfl

theorem Shifts.reach_le {phase next : Phase} {t : Token} (h : Shifts phase t next) :
    phase.reach ≤ next.reach := by
  cases h with
  | literal => exact Nat.le_refl _
  | @unary stack | @opener stack => exact stackDepth_mono (by omega) stack
  | @binary stack e s pos level =>
    simp only [Phase.reach, stackDepth, ← stackDepth_reduce level stack e]
    exact stackDepth_mono (by omega) _
  | @closer stack e s pos hs =>
    obtain ⟨delimiter, p, rest, inner, hreduce, -, hclose⟩ := closeGroup_eq e hs
    have hdepth := stackDepth_reduce 0 stack e
    rw [hreduce] at hdepth
    rw [hclose, Phase.reach, ← hdepth]
    exact Nat.le_refl _

theorem Moves.reach_le {trail : TokenTrail} {phase next : Phase} {t : Token} {ds : List Diagnostic}
    (h : Moves trail phase t next ds) : phase.reach ≤ next.reach := by
  cases h with
  | shift hshift => exact hshift.reach_le
  -- a placeholder has the depth that every operand has at least
  | omitted _ _ hshift => exact hshift.reach_le
  | leave | leaveInvalid => exact (depth_unwind _ _).ge
  | stray | misplaced | invalidOperand | unexpected | invalidTrailing | past => exact Nat.le_refl _

theorem reach_le_depth_run (trail : TokenTrail) (phase : Phase) (tokens : List Token) :
    phase.reach ≤ (run trail phase tokens).1.root.depth := by
  induction tokens generalizing trail phase with
  | nil => exact (depth_finish trail trail.lastPos phase).ge
  | cons t ts ih =>
    have hstep := (moves_step trail phase t).reach_le
    cases t with
    | endOfFile pos => exact (depth_finish trail pos phase).ge
    | symbol | keyword | literal | invalid => exact hstep.trans (ih _ _)

theorem length_stack_lt_depth_run (trail : TokenTrail) (phase : Phase) (tokens : List Token) :
    phase.stack.length < (run trail phase tokens).1.root.depth :=
  Nat.lt_of_lt_of_le (length_stack_lt_reach phase) (reach_le_depth_run trail phase tokens)

theorem reportsWithin_of_depth_le {limit : Nat} {trail : TokenTrail} {phase : Phase}
    {tokens : List Token} (h : (run trail phase tokens).1.root.depth ≤ limit) :
    reportsWithin limit trail phase tokens = (run trail phase tokens).2 := by
  induction tokens generalizing trail phase with
  | nil => rfl
  | cons t ts ih =>
    have hdepth := length_stack_lt_depth_run (trail.after t) (step trail phase t).1 ts
    have hrest := @ih (trail.after t) (step trail phase t).1
    cases t with
    | endOfFile pos => rfl
    | symbol | keyword | literal | invalid =>
      have hstack := Nat.le_of_lt (Nat.lt_of_lt_of_le hdepth h)
      simp only [reportsWithin, run, if_pos hstack, hrest h]

end Parse

/-! ### Parsers -/

namespace Parser

theorem complete_append (parser : Parser) (limit : Nat) (log : DiagnosticLog)
    (ds : List Diagnostic) :
    parser.complete limit (log.append ds) =
      ((parser.complete limit ⟨ds⟩).1, (parser.complete limit ⟨ds⟩).2.1,
        log.append (parser.complete limit ⟨ds⟩).2.2.entries) := by
  simp [complete, DiagnosticLog.append]

/-- Tokens are read in the same way whatever the log holds, and what it holds stays in front. -/
theorem read_append (limit : Nat) (log : DiagnosticLog) (ds : List Diagnostic) (trail : TokenTrail)
    (phase : Parse.Phase) (tokens : List Token) :
    read limit (log.append ds) trail phase tokens =
      ((read limit ⟨ds⟩ trail phase tokens).1, (read limit ⟨ds⟩ trail phase tokens).2.1,
        log.append (read limit ⟨ds⟩ trail phase tokens).2.2.entries) := by
  induction tokens generalizing ds trail phase with
  | nil => exact complete_append _ limit log ds
  | cons t ts ih =>
    cases t with
    | endOfFile pos => exact complete_append _ limit log ds
    | symbol | keyword | literal | invalid =>
      simp only [read]
      split
      · rw [DiagnosticLog.append_append]
        exact ih _ _ _
      · rw [DiagnosticLog.append_append]
        rfl

theorem read_log (limit : Nat) (log : DiagnosticLog) (trail : TokenTrail) (phase : Parse.Phase)
    (tokens : List Token) :
    (read limit log trail phase tokens).2.2 =
      log.append (Parse.reportsWithin limit trail phase tokens) := by
  induction tokens generalizing log trail phase with
  | nil => rfl
  | cons t ts ih =>
    cases t with
    | endOfFile pos => rfl
    | symbol | keyword | literal | invalid =>
      simp only [read, Parse.reportsWithin]
      split
      · rw [ih, DiagnosticLog.append_append]
      · rfl

/-- A parse is given up exactly if the tree of all tokens is too deep. -/
theorem read_tree (limit : Nat) (log : DiagnosticLog) (trail : TokenTrail) (phase : Parse.Phase)
    (tokens : List Token) :
    (read limit log trail phase tokens).1 =
      if (Parse.run trail phase tokens).1.root.depth ≤ limit then
        some (Parse.run trail phase tokens).1
      else none := by
  induction tokens generalizing log trail phase with
  | nil => rfl
  | cons t ts ih =>
    have hdepth := Parse.length_stack_lt_depth_run (trail.after t) (Parse.step trail phase t).1 ts
    cases t with
    | endOfFile pos => rfl
    | symbol | keyword | literal | invalid =>
      simp only [read, Parse.run]
      split
      · exact ih _ _ _
      · next hstack =>
        exact (if_neg (by omega)).symm

theorem parse_eq_read (parser : Parser) (limit : Nat) (log : DiagnosticLog) (tokens : List Token) :
    parser.parse limit log tokens = read limit log TokenTrail.start (.operand []) tokens := rfl

theorem parseInto?_eq (parser : Parser) (limit : Nat) (log : DiagnosticLog) (tokens : List Token) :
    Tree.parseInto? limit log tokens =
      (parser.parse limit log tokens).1.map fun tree =>
        (tree, (parser.parse limit log tokens).2.2) := by
  have hrun : Parse.run TokenTrail.start (.operand []) tokens = Tree.parse tokens := rfl
  rw [parse_eq_read, read_tree, read_log, hrun]
  by_cases hdepth : (Tree.parse tokens).1.root.depth ≤ limit
  · have hreports := Parse.reportsWithin_of_depth_le hdepth
    rw [hrun] at hreports
    simp [Tree.parseInto?, hdepth, hreports]
  · simp [Tree.parseInto?, hdepth]

end Parser

/-! ### Scanners -/

namespace Scanner

/-- Drawing some tokens gives the first ones of all, and records the diagnostics that they carry. -/
theorem draw_eq (n : Nat) (s : Scanner) (log : DiagnosticLog) :
    s.draw n log = (s.tokens.take n, log.append (Token.faults (s.tokens.take n))) := by
  induction n generalizing s log with
  | zero => simp [draw, Token.faults, DiagnosticLog.append]
  | succ n ih =>
    cases hnext : s.next? with
    | none => simp [draw, hnext, tokens_of_next?_eq_none hnext, Token.faults, DiagnosticLog.append]
    | some drawn =>
      obtain ⟨t, after⟩ := drawn
      have hrecord : log.record t = log.append t.fault?.toList := by
        cases hfault : t.fault? <;>
          simp [DiagnosticLog.record, hfault, DiagnosticLog.push, DiagnosticLog.append]
      have hfaults : Token.faults (t :: after.tokens.take n) =
          t.fault?.toList ++ Token.faults (after.tokens.take n) := by
        cases hfault : t.fault? <;> simp [Token.faults, hfault]
      rw [draw, hnext, tokens_eq_cons hnext, List.take_succ_cons, hfaults]
      simp only [ih, hrecord, DiagnosticLog.append_append]

end Scanner

/-- Parsing and scanning only append to the log, and nothing in it or in the parser has an effect on
them. A parse by any parser, whatever state earlier parses have left it in, gives the tree and leaves
the state that a new parser gives and leaves; the log gets exactly what a new parser writes into an
empty one. The tree is there unless it is too deep, and the log then has all that there is to report.
Drawing tokens from a source gives the first ones of its scan and appends the diagnostics in them. -/
theorem Parser.parse_and_draw_append (parser : Parser) (limit : Nat) (log : DiagnosticLog) :
    (∀ tokens : List Token,
      parser.parse limit log tokens =
        ((new.parse limit .empty tokens).1, (new.parse limit .empty tokens).2.1,
          log.append (new.parse limit .empty tokens).2.2.entries) ∧
      Tree.parseInto? limit log tokens =
        (parser.parse limit log tokens).1.map fun tree =>
          (tree, (parser.parse limit log tokens).2.2)) ∧
    ∀ (source : String) (n : Nat),
      (Scanner.start source).draw n log =
        ((Token.scan source).take n, log.append (Token.faults ((Token.scan source).take n))) := by
  refine ⟨fun tokens => ⟨?_, ?_⟩, fun source n => Scanner.draw_eq n (Scanner.start source) log⟩
  · have hread := read_append limit log [] TokenTrail.start (.operand []) tokens
    have hlog : log.append [] = log := by simp [DiagnosticLog.append]
    rw [hlog] at hread
    exact hread
  · exact parseInto?_eq parser limit log tokens

end ExprLang
