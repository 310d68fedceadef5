import ExprLang.Proofs.Relabelling
import ExprLang.Proofs.Reports
import ExprLang.Proofs.Sessions

/-! # Blank lines before a source

Lines of blanks and comments in front of a source move everything in it down and do nothing else. The
scanner skips them, and goes on from a position that differs in its line only; every step of scanning
commutes with moving down. What the tokens lead to then follows by relabelling. The unknown position
at which the parser starts does not move, but neither a report nor an evaluated tree stands at it. -/

namespace ExprLang

namespace Position

/-- The position `n` lines further down. -/
def shift (n : Nat) (p : Position) : Position := ⟨p.line + n, p.column⟩

theorem advance_shift (n : Nat) (p : Position) (c : Char) :
    (p.shift n).advance c = (p.advance c).shift n := by
  unfold advance shift
  split
  · rw [Nat.add_right_comm]
  · rfl

theorem advanceAll_shift (n : Nat) (p : Position) (cs : List Char) :
    (p.shift n).advanceAll cs = (p.advanceAll cs).shift n := by
  induction cs generalizing p with
  | nil => rfl
  | cons c cs ih => rw [advanceAll_cons, advanceAll_cons, advance_shift, ih]

theorem advanceAll_line {cs : List Char} (h : '\n' ∉ cs) (p : Position) :
    p.advanceAll (cs ++ ['\n']) = ⟨p.line + 1, 1⟩ := by
  rw [advanceAll_append, advanceAll_unbroken h]
  rfl

end Position

/-! ### Scanning further down -/

theorem skipTrivia_shift (n : Nat) (inComment : Bool) (p : Position) (cs : List Char) :
    skipTrivia inComment (p.shift n) cs =
      ((skipTrivia inComment p cs).1.shift n, (skipTrivia inComment p cs).2) := by
  induction cs generalizing inComment p with
  | nil => rw [skipTrivia, skipTrivia]
  | cons c cs ih =>
    cases inComment with
    | true => rw [skipTrivia, skipTrivia, Position.advance_shift, ih]
    | false =>
      rw [skipTrivia, skipTrivia, Position.advance_shift, ih, ih]
      split
      · rfl
      · split <;> rfl

namespace Lexeme

def mapPos (f : Position → Position) (lexeme : Lexeme) : Lexeme :=
  { lexeme with token := lexeme.token.mapPos f }

theorem wordToken_mapPos (f : Position → Position) (pos : Position) (word : List Char) :
    wordToken (f pos) word = (wordToken pos word).mapPos f := by
  simp only [wordToken]
  split
  · rfl
  · split <;> rfl

theorem symbol_mapPos (f : Position → Position) (pos : Position) (c : Char) (cs : List Char) :
    symbol (f pos) c cs = (symbol pos c cs).mapPos f := by
  unfold symbol
  split
  · split <;> rfl
  · split
    · rfl
    · split <;> rfl
    · rfl

theorem string_shift (n : Nat) (pos : Position) (cs : List Char) :
    string (pos.shift n) cs = (string pos cs).mapPos (Position.shift n) := by
  unfold string
  split
  · rfl
  · rw [Position.advanceAll_shift]
    rfl

theorem read_shift (n : Nat) (pos : Position) (c : Char) (cs : List Char) :
    read (pos.shift n) c cs = (read pos c cs).mapPos (Position.shift n) := by
  unfold read
  split
  · rw [run, wordToken_mapPos]
    rfl
  · split
    · rw [run, numberToken_mapPos]
      rfl
    · split
      · exact string_shift n pos cs
      · exact symbol_mapPos _ pos c cs

end Lexeme

namespace Scanner

def shift (n : Nat) (s : Scanner) : Scanner := { s with pos := s.pos.shift n }

theorem next?_shift (n : Nat) (s : Scanner) :
    (s.shift n).next? =
      s.next?.map fun drawn => (drawn.1.mapPos (Position.shift n), drawn.2.shift n) := by
  have hskip := skipTrivia_shift n false s.pos s.rest
  simp only [next?, shift, hskip]
  split
  · rfl
  · rcases skipTrivia false s.pos s.rest with ⟨p, rest⟩
    cases rest with
    | nil => rfl
    | cons c cs =>
      have hread := Lexeme.read_shift n p c cs
      simp only [hread, Lexeme.mapPos, Position.advanceAll_shift]
      rfl

theorem tokens_shift (n : Nat) (s : Scanner) :
    (s.shift n).tokens = s.tokens.map (Token.mapPos (Position.shift n)) := by
  have hshift := next?_shift n s
  cases hnext : s.next? with
  | none =>
    rw [hnext] at hshift
    rw [tokens_of_next?_eq_none hshift, tokens_of_next?_eq_none hnext]
    rfl
  | some drawn =>
    obtain ⟨t, after⟩ := drawn
    rw [hnext] at hshift
    rw [tokens_eq_cons hshift, tokens_eq_cons hnext, tokens_shift n after]
    rfl
termination_by s.remaining
decreasing_by exact remaining_lt_of_next? hnext

theorem tokens_congr {s s' : Scanner} (h : s.next? = s'.next?) : s.tokens = s'.tokens := by
  cases hnext : s'.next? with
  | none => rw [tokens_of_next?_eq_none (h.trans hnext), tokens_of_next?_eq_none hnext]
  | some drawn => rw [tokens_eq_cons (h.trans hnext), tokens_eq_cons hnext]

end Scanner

/-! ### Blank lines -/

/-- A line of blanks, perhaps with a comment after them, through its newline. -/
inductive BlankLine : List Char → Prop
  | newline : BlankLine ['\n']
  | comment {body : List Char} : '\n' ∉ body → BlankLine ('/' :: '/' :: (body ++ ['\n']))
  | blank {c : Char} {cs : List Char} :
    Text.isBlank c = true → c ≠ '\n' → BlankLine cs → BlankLine (c :: cs)

theorem BlankLine.trivia {line : List Char} (h : BlankLine line) : Trivia false line := by
  induction h with
  | newline => exact .blank (by decide) .nil
  | comment hbody => exact .comment hbody .nil
  | blank hblank _ _ ih => exact .blank hblank ih

theorem BlankLine.skipTrivia_append {line : List Char} (h : BlankLine line) (p : Position)
    (cs : List Char) :
    skipTrivia false p (line ++ cs) = skipTrivia false (p.advanceAll line) cs :=
  h.trivia.skipTrivia_append (by simp) p

theorem BlankLine.advanceAll_eq {line : List Char} (h : BlankLine line) (p : Position) :
    p.advanceAll line = ⟨p.line + 1, 1⟩ := by
  induction h generalizing p with
  | newline => rfl
  | @comment body hbody =>
    have hslashes : '\n' ∉ '/' :: '/' :: body := by simp [hbody]
    exact Position.advanceAll_line hslashes p
  | @blank c line _ hc _ ih => rw [Position.advanceAll_cons, ih, Position.advance, if_neg hc]

section

variable {lines : List (List Char)} (h : ∀ line ∈ lines, BlankLine line)
include h

theorem skipTrivia_blankLines (p : Position) (cs : List Char) :
    skipTrivia false p (lines.flatten ++ cs) = skipTrivia false (p.advanceAll lines.flatten) cs := by
  induction lines generalizing p with
  | nil => rfl
  | cons line lines ih =>
    obtain ⟨hline, hlines⟩ := List.forall_mem_cons.1 h
    rw [List.flatten_cons, List.append_assoc, hline.skipTrivia_append, ih hlines,
      Position.advanceAll_append]

theorem advanceAll_blankLines {p : Position} (hp : p.column = 1) :
    p.advanceAll lines.flatten = p.shift lines.length := by
  induction lines generalizing p with
  | nil => rfl
  | cons line lines ih =>
    obtain ⟨hline, hlines⟩ := List.forall_mem_cons.1 h
    rw [List.flatten_cons, Position.advanceAll_append, hline.advanceAll_eq, ih hlines rfl]
    simp [Position.shift, hp, Nat.add_assoc, Nat.add_comm 1]

theorem Scanner.tokens_blankLines (cs : List Char) :
    (Scanner.mk .start (lines.flatten ++ cs) false).tokens =
      (Scanner.mk .start cs false).tokens.map (Token.mapPos (Position.shift lines.length)) := by
  have hstart : Position.start.advanceAll lines.flatten = Position.start.shift lines.length :=
    advanceAll_blankLines h rfl
  rw [← Scanner.tokens_shift]
  apply Scanner.tokens_congr
  simp only [Scanner.next?, Scanner.shift, skipTrivia_blankLines h, hstart]
  rfl

end

theorem Token.scan_blankLines {lines : List String} (h : ∀ line ∈ lines, BlankLine line.toList)
    (source : String) :
    Token.scan (String.join lines ++ source) =
      (Token.scan source).map (Token.mapPos (Position.shift lines.length)) := by
  have hjoin : (String.join lines ++ source).toList =
      (lines.map String.toList).flatten ++ source.toList := by
    rw [String.toList_append, String.toList_join, List.flatMap_def]
  have htokens := Scanner.tokens_blankLines (List.forall_mem_map.2 h) source.toList
  rw [← hjoin, List.length_map] at htokens
  exact htokens

/-! ### Known positions -/

/-- Moves a position down, but not the unknown one. -/
def Position.shiftKnown (n : Nat) (p : Position) : Position :=
  if p = .unknown then .unknown else p.shift n

theorem Position.shiftKnown_ofPrefix (n : Nat) (cs : List Char) :
    (ofPrefix cs).shiftKnown n = (ofPrefix cs).shift n := by
  have hknown : ofPrefix cs ≠ .unknown := by
    intro heq
    have hline := congrArg Position.line heq
    simp [ofPrefix, unknown] at hline
  rw [shiftKnown, if_neg hknown]

theorem Lexeme.Spells.mapPos_congr {pos eof : Position} {text rest : List Char} {t : Token}
    (h : Lexeme.Spells pos eof text rest t) {f g : Position → Position} (hpos : f pos = g pos)
    (heof : f eof = g eof) : t.mapPos f = t.mapPos g := by
  cases h <;> simp [Token.mapPos, Diagnostic.mapPos, hpos, heof]

theorem Token.mapPos_shiftKnown (n : Nat) {source : String} {t : Token}
    (h : t ∈ Token.scan source) :
    t.mapPos (Position.shiftKnown n) = t.mapPos (Position.shift n) := by
  obtain ⟨pieces, htokens, -, hpieces⟩ := Scanner.tokens_tile [] source.toList
  have hscan : Token.scan source =
      pieces.map Piece.token ++ [.endOfFile (.ofPrefix source.toList)] := htokens
  rw [hscan, List.mem_append, List.mem_map, List.mem_singleton] at h
  rcases h with ⟨piece, hpiece, rfl⟩ | rfl
  · exact (hpieces piece hpiece).spells.mapPos_congr (Position.shiftKnown_ofPrefix n _)
      (Position.shiftKnown_ofPrefix n _)
  · rw [mapPos, mapPos, Position.shiftKnown_ofPrefix]

theorem Token.shiftKnown_of_pos? (n : Nat) {source : String} {t : Token} {p : Position}
    (h : t ∈ Token.scan source) (hp : t.pos? = some p) : p.shiftKnown n = p.shift n := by
  have hpos := congrArg Token.pos? (mapPos_shiftKnown n h)
  rw [pos?_mapPos, pos?_mapPos, hp] at hpos
  exact Option.some.inj hpos

theorem Diagnostic.mapPos_congr {f g : Position → Position} {d : Diagnostic} {p : Position}
    (hp : d.pos? = some p) (h : f p = g p) : d.mapPos f = d.mapPos g := by
  cases d <;> cases hp <;> simp [mapPos, h]

/-- A report of the parser stands at the position of a token. -/
theorem Tree.mapPos_shiftKnown_of_mem (n : Nat) {source : String} {d : Diagnostic}
    (h : d ∈ (Tree.parse (Token.scan source)).2) :
    d.mapPos (Position.shiftKnown n) = d.mapPos (Position.shift n) := by
  obtain ⟨us, eof, hscan, hus, -⟩ := Token.scan_positions_increase source
  have honce := (Parse.accounts_parse hus eof).once
  rw [← hscan, Parse.openPositions_trailing, List.map_nil, List.append_nil] at honce
  -- this rules out the unknown position, also where the source starts with an invalid token
  obtain ⟨p, hp, hsome⟩ := List.mem_map.1 (honce.subset (List.mem_map_of_mem h))
  obtain ⟨t, ht, hpos⟩ := List.mem_filterMap.1 hp
  exact Diagnostic.mapPos_congr hsome.symm (Token.shiftKnown_of_pos? n ht hpos)

/-- An expression without any diagnostic is made of tokens, so all its positions are known. -/
theorem Tree.root_mapPos_shiftKnown (n : Nat) {source : String}
    (h : Source.diagnostics source = []) :
    (Tree.parse (Token.scan source)).1.root.mapPos (Position.shiftKnown n) =
      (Tree.parse (Token.scan source)).1.root.mapPos (Position.shift n) := by
  obtain ⟨hfaults, hreports⟩ := List.append_eq_nil_iff.1 h
  have hbody : ∀ t ∈ Token.body (Token.scan source), t ∈ Token.scan source :=
    fun t ht => (List.takeWhile_sublist _).subset ht
  have hvalid : ∀ t ∈ Token.body (Token.scan source), t.fault? = none :=
    fun t ht => List.filterMap_eq_nil_iff.1 hfaults t (hbody t ht)
  have hderives := Tree.derives_of_parse hvalid hreports
  apply Expr.mapPos_congr
  intro t ht pos hpos
  rw [hderives.inorder_eq] at ht
  exact Token.shiftKnown_of_pos? n (hbody t (List.mem_of_mem_filter ht)) hpos

/-! ### Runs -/

theorem Position.shiftKnown_unknown (n : Nat) : Position.unknown.shiftKnown n = .unknown :=
  if_pos rfl

section

variable {lines : List String} (h : ∀ line ∈ lines, BlankLine line.toList) (source : String)
  (limit : Nat)
include h

theorem Token.scan_blankLines_known :
    Token.scan (String.join lines ++ source) =
      (Token.scan source).map (Token.mapPos (Position.shiftKnown lines.length)) := by
  rw [Token.scan_blankLines h]
  exact List.map_congr_left fun t ht => (Token.mapPos_shiftKnown lines.length ht).symm

theorem Tree.parse_blankLines :
    Tree.parse (Token.scan (String.join lines ++ source)) =
      ((Tree.parse (Token.scan source)).1.mapPos (Position.shiftKnown lines.length),
        (Tree.parse (Token.scan source)).2.map (Diagnostic.mapPos (Position.shift lines.length))) := by
  rw [Token.scan_blankLines_known h, Tree.parse_mapPos (Position.shiftKnown_unknown _)]
  congr 1
  exact List.map_congr_left fun d hd => Tree.mapPos_shiftKnown_of_mem lines.length hd

theorem Tree.reportsWithin_blankLines :
    Parse.reportsWithin limit .start (.operand []) (Token.scan (String.join lines ++ source)) =
      (Parse.reportsWithin limit .start (.operand []) (Token.scan source)).map
        (Diagnostic.mapPos (Position.shift lines.length)) := by
  have hreports := Tree.reportsWithin_mapPos (Position.shiftKnown_unknown lines.length)
    limit (Token.scan source)
  rw [Token.scan_blankLines_known h, hreports]
  apply List.map_congr_left
  intro d hd
  have hmem : d ∈ (Tree.parse (Token.scan source)).2 :=
    (Session.reportsWithin_isPrefix_run _ _ _ _).subset hd
  exact Tree.mapPos_shiftKnown_of_mem lines.length hmem

theorem Token.faults_blankLines :
    Token.faults (Token.scan (String.join lines ++ source)) =
      (Token.faults (Token.scan source)).map (Diagnostic.mapPos (Position.shift lines.length)) := by
  rw [Token.scan_blankLines h, Token.faults_map_mapPos]

theorem Source.isShallow_blankLines :
    Source.isShallow limit (String.join lines ++ source) = Source.isShallow limit source := by
  rw [isShallow, isShallow, Tree.parse_blankLines h, Tree.mapPos, Expr.depth_mapPos]

theorem Source.diagnostics_blankLines :
    Source.diagnostics (String.join lines ++ source) =
      (Source.diagnostics source).map (Diagnostic.mapPos (Position.shift lines.length)) := by
  rw [diagnostics, diagnostics, Tree.parse_blankLines h, Token.faults_blankLines h, List.map_append]

theorem Session.recorded_blankLines :
    recorded limit (String.join lines ++ source) =
      (recorded limit source).mapPos (Position.shift lines.length) := by
  simp only [recorded, Source.isShallow_blankLines h, Source.diagnostics_blankLines h,
    Tree.abandonedLog, Tree.reportsWithin_blankLines h, Token.faults_blankLines h]
  split
  · rfl
  · simp [DiagnosticLog.mapPos, DiagnosticLog.append]

theorem Session.treeDumpOf_blankLines (options : RunOptions) :
    treeDumpOf limit options (String.join lines ++ source) = treeDumpOf limit options source := by
  simp only [treeDumpOf, Source.isShallow_blankLines h, Tree.parse_blankLines h, Tree.mapPos,
    Expr.pretty_mapPos]

theorem evaluateSource_blankLines :
    evaluateSource limit (String.join lines ++ source) =
      (evaluateSource limit source).mapPos (Position.shift lines.length) := by
  rw [Session.evaluateSource_eq, Session.evaluateSource_eq, Source.isShallow_blankLines h,
    Source.diagnostics_blankLines h, Tree.parse_blankLines h]
  split
  · exact Tree.outcome_mapPos _ ⟨_⟩ (Tree.root_mapPos_shiftKnown lines.length)
  · rfl

end

/-- Blank and comment lines in front of a source only move it down. A run has the same outcome and
leaves the same log, with every diagnostic as many lines further down as there are lines in front.
The dump of the tree stays the same, and that of the tokens is made of the tokens further down. What
is moved down keeps its kind, its message, what it names and its column. -/
theorem Session.run_blankLines (session : Session) (limit : Nat) {lines : List String}
    (h : ∀ line ∈ lines, BlankLine line.toList) (source : String) :
    session.run limit (String.join lines ++ source) =
      ((session.run limit source).1.mapPos (Position.shift lines.length),
        ⟨session.options, (session.run limit source).2.log.mapPos (Position.shift lines.length),
          if session.options.showTokens then
            some (Token.dump ((Token.scan source).map (Token.mapPos (Position.shift lines.length))))
          else none,
          (session.run limit source).2.treeDump⟩) ∧
    ∀ d : Diagnostic,
      (d.mapPos (Position.shift lines.length)).kind = d.kind ∧
      (d.mapPos (Position.shift lines.length)).message = d.message ∧
      (d.mapPos (Position.shift lines.length)).subject? = d.subject? ∧
      (d.mapPos (Position.shift lines.length)).pos? =
        d.pos?.map fun p => ⟨p.line + lines.length, p.column⟩ := by
  refine ⟨?_, fun d => ⟨d.kind_mapPos _, d.message_mapPos _, d.subject?_mapPos _, d.pos?_mapPos _⟩⟩
  rw [run_eq, run_eq, evaluateSource_blankLines h, recorded_blankLines h, treeDumpOf_blankLines h,
    tokenDumpOf, Token.scan_blankLines h]

theorem Session.run_two_blankLines :
    (∀ line ∈ [" // note\n", "\t\n"], BlankLine line.toList) ∧
      ((start ⟨true, true⟩).run 10 (String.join [" // note\n", "\t\n"] ++ "1 +")).1 =
        .rejected [.parseError ⟨3, 4⟩ "expected expression after `+`" none] := by
  have hnote : BlankLine (' ' :: '/' :: '/' :: (" note".toList ++ ['\n'])) :=
    .blank rfl (by decide) (.comment (by decide))
  have htab : BlankLine ['\t', '\n'] := .blank rfl (by decide) .newline
  have hlines : ∀ line ∈ [" // note\n", "\t\n"], BlankLine line.toList := by
    simpa using ⟨hnote, htab⟩
  refine ⟨hlines, ?_⟩
  rw [(run_blankLines (start ⟨true, true⟩) 10 hlines "1 +").1]
  decide +kernel

end ExprLang
