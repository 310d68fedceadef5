import ExprLang.Proofs.AppendOnly
import ExprLang.Proofs.Reports

/-! # Where the tokens end

A parse ends at the first end-of-file token, whatever comes after it. Where there is none it ends with
the last token, as if an end-of-file token stood at the last known position. Both ends are one case:
every list of tokens is parsed like its body with an end-of-file token of its own. -/

namespace ExprLang

/-- The position of the last token that has one. -/
def Token.lastPos (ts : List Token) : Position := (ts.filterMap pos?).getLast?.getD .unknown

theorem TokenTrail.lastPos_afterAll (trail : TokenTrail) (ts : List Token) :
    (trail.afterAll ts).lastPos = (ts.filterMap Token.pos?).getLast?.getD trail.lastPos := by
  induction ts generalizing trail with
  | nil => rfl
  | cons t ts ih =>
    have hnext : trail.afterAll (t :: ts) = (trail.after t).afterAll ts := rfl
    rw [hnext, ih]
    cases hpos : t.pos? with
    | none =>
      have hlast : (trail.after t).lastPos = trail.lastPos := by simp [after, posOf, hpos]
      rw [List.filterMap_cons_none hpos, hlast]
    | some p =>
      have hlast : (trail.after t).lastPos = p := by simp [after, posOf, hpos]
      rw [List.filterMap_cons_some hpos, List.getLast?_cons, hlast, Option.getD_some]

namespace Parse

section

variable {ts : List Token} (h : ∀ t ∈ ts, t.isEndOfFile = false)
include h

theorem body_of_endless : Token.body ts = ts := by
  unfold Token.body
  rw [List.takeWhile_eq_self_iff]
  simpa using h

theorem eofPos_of_endless (trail : TokenTrail) : eofPos trail ts = (trail.afterAll ts).lastPos := by
  induction ts generalizing trail with
  | nil => rfl
  | cons t ts ih =>
    obtain ⟨ht, hts⟩ := List.forall_mem_cons.1 h
    cases t with
    | endOfFile => simp [Token.isEndOfFile] at ht
    | symbol | keyword | literal | invalid => exact ih hts _

theorem eofPos_start_of_endless : eofPos .start ts = Token.lastPos ts := by
  rw [eofPos_of_endless h, TokenTrail.lastPos_afterAll]
  rfl

end

theorem isEndOfFile_of_mem_body {tokens : List Token} {t : Token} (h : t ∈ Token.body tokens) :
    t.isEndOfFile = false := by
  simpa using List.mem_takeWhile_imp h

theorem body_cons {t : Token} (h : t.isEndOfFile = false) (ts : List Token) :
    Token.body (t :: ts) = t :: Token.body ts := by
  simp [Token.body, h]

theorem run_ended (trail : TokenTrail) (phase : Phase) (tokens : List Token) :
    run trail phase tokens =
      run trail phase (Token.body tokens ++ [.endOfFile (eofPos trail tokens)]) := by
  have hbody : ∀ t ∈ Token.body tokens, t.isEndOfFile = false := fun _ => isEndOfFile_of_mem_body
  rw [run_eq, run_eq trail phase (_ ++ _), body_append hbody, eofPos_append hbody]

end Parse

namespace Parser

/-- What a parse gives: a tree unless it is too deep, and the log. -/
def result (parser : Parser) (limit : Nat) (log : DiagnosticLog) (tokens : List Token) :
    Option Tree × DiagnosticLog :=
  ((parser.parse limit log tokens).1, (parser.parse limit log tokens).2.2)

theorem result_of_parse {limit : Nat} {tokens : List Token} {tree : Tree} {ds : List Diagnostic}
    (h : Tree.parse tokens = (tree, ds)) (hdepth : tree.root.depth ≤ limit)
    (parser : Parser) (log : DiagnosticLog) :
    parser.result limit log tokens = (some tree, log.append ds) := by
  have hrun : Parse.run .start (.operand []) tokens = (tree, ds) := h
  have hwithin : (Parse.run .start (.operand []) tokens).1.root.depth ≤ limit := by
    rw [hrun]
    exact hdepth
  rw [result, parse_eq_read, read_tree, read_log, if_pos hwithin,
    Parse.reportsWithin_of_depth_le hwithin, hrun]

theorem read_ended (limit : Nat) (log : DiagnosticLog) (trail : TokenTrail) (phase : Parse.Phase)
    (tokens : List Token) :
    (read limit log trail phase tokens).1 = (read limit log trail phase
      (Token.body tokens ++ [.endOfFile (Parse.eofPos trail tokens)])).1 ∧
    (read limit log trail phase tokens).2.2 = (read limit log trail phase
      (Token.body tokens ++ [.endOfFile (Parse.eofPos trail tokens)])).2.2 := by
  induction tokens generalizing log trail phase with
  -- the two streams differ, but not in the position that they show at their end
  | nil => exact ⟨rfl, rfl⟩
  | cons t ts ih =>
    cases t with
    | endOfFile pos => exact ⟨rfl, rfl⟩
    | symbol | keyword | literal | invalid =>
      rw [Parse.body_cons rfl, List.cons_append]
      simp only [read, Parse.eofPos]
      split
      · exact ih _ _ _
      · exact ⟨rfl, rfl⟩

theorem result_ended (parser : Parser) (limit : Nat) (log : DiagnosticLog) (tokens : List Token) :
    parser.result limit log tokens = parser.result limit log
      (Token.body tokens ++ [.endOfFile (Parse.eofPos .start tokens)]) :=
  Prod.ext (read_ended limit log .start (.operand []) tokens).1
    (read_ended limit log .start (.operand []) tokens).2

/-- The end of the tokens is found in one way. Tokens after an end-of-file token make no difference to
the tree, to the position where it ends and to what is reported; and without an end-of-file token all
of these are as with one at the position of the last token that has one. The same holds of what any
parser returns and writes to its log, also where it gives up. -/
theorem parse_ends_alike {ts : List Token} (hts : ∀ t ∈ ts, t.isEndOfFile = false)
    (parser : Parser) (limit : Nat) (log : DiagnosticLog) :
    (∀ (z : Position) (us : List Token),
      Tree.parse (ts ++ .endOfFile z :: us) = Tree.parse (ts ++ [.endOfFile z]) ∧
      (Tree.parse (ts ++ .endOfFile z :: us)).1.eof = z ∧
      parser.result limit log (ts ++ .endOfFile z :: us) =
        parser.result limit log (ts ++ [.endOfFile z])) ∧
    Tree.parse ts = Tree.parse (ts ++ [.endOfFile (Token.lastPos ts)]) ∧
    parser.result limit log ts =
      parser.result limit log (ts ++ [.endOfFile (Token.lastPos ts)]) := by
  refine ⟨fun z us => ?_, ?_, ?_⟩
  · have hbody := Parse.body_append hts z us
    have heof := Parse.eofPos_append hts z us .start
    have hparse := Parse.run_ended .start (.operand []) (ts ++ .endOfFile z :: us)
    have hresult := result_ended parser limit log (ts ++ .endOfFile z :: us)
    rw [hbody, heof] at hparse hresult
    refine ⟨hparse, ?_, hresult⟩
    rw [Tree.parse, Parse.run_eq]
    exact heof
  · have hparse := Parse.run_ended .start (.operand []) ts
    rw [Parse.body_of_endless hts, Parse.eofPos_start_of_endless hts] at hparse
    exact hparse
  · have hresult := result_ended parser limit log ts
    rw [Parse.body_of_endless hts, Parse.eofPos_start_of_endless hts] at hresult
    exact hresult

/-- The tokens of `("a"+@`, where the last one has no position of its own. -/
def brokenSum : List Token :=
  [.symbol .leftParen ⟨1, 1⟩, .literal (.string "a") ⟨1, 2⟩, .symbol .plus ⟨1, 5⟩,
    .invalid (.unknownToken ⟨1, 6⟩ "@")]

theorem parse_ends_alike_brokenSum :
    (∀ t ∈ brokenSum, t.isEndOfFile = false) ∧
      Tree.parse brokenSum = Tree.parse (brokenSum ++ [.endOfFile ⟨1, 5⟩]) ∧
      Tree.parse (brokenSum ++ [.endOfFile ⟨1, 7⟩, .symbol .comma ⟨1, 8⟩]) =
        Tree.parse (brokenSum ++ [.endOfFile ⟨1, 7⟩]) := by
  have hbody : ∀ t ∈ brokenSum, t.isEndOfFile = false := by decide
  obtain ⟨hended, hendless, -⟩ := parse_ends_alike hbody new 10 .empty
  exact ⟨hbody, hendless, (hended ⟨1, 7⟩ [.symbol .comma ⟨1, 8⟩]).1⟩

end Parser

end ExprLang
