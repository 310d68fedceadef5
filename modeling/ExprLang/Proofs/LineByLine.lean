import ExprLang.Proofs.AppendOnly
import ExprLang.Proofs.BlankLines

/-! # Scanning line by line

A newline ends every comment, word, number and symbol; only a string goes on across it. A source whose
first lines leave no string open is therefore scanned in two parts: the tokens of these lines, and the
tokens of the lines after them as many lines further down. -/

namespace ExprLang

/-! ### Trivia before a newline -/

/-- Skipping ends at the same character whether a newline follows or not. A text of trivia alone is
skipped together with the newline, also inside a comment. -/
theorem skipTrivia_newline (inComment : Bool) (p : Position) (cs ds : List Char) :
    skipTrivia inComment p (cs ++ '\n' :: ds) =
      match skipTrivia inComment p cs with
      | (q, []) => skipTrivia false (q.advance '\n') ds
      | (q, c :: rest) => (q, c :: (rest ++ '\n' :: ds)) := by
  induction cs generalizing inComment p with
  | nil => cases inComment <;> rfl
  | cons c cs ih =>
    cases inComment with
    | true => rw [List.cons_append, skipTrivia, skipTrivia, ih]
    | false =>
      -- a slash at the end of the text starts no comment
      have hslash : ((cs ++ '\n' :: ds).head? == some '/') = (cs.head? == some '/') := by
        cases cs <;> rfl
      rw [List.cons_append, skipTrivia, skipTrivia, hslash]
      split
      · exact ih false (p.advance c)
      · split
        · exact ih true (p.advance c)
        · rfl

/-! ### Lexemes before a newline -/

namespace Lexeme

def followedBy (lexeme : Lexeme) (ds : List Char) : Lexeme :=
  { lexeme with rest := lexeme.rest ++ ds }

theorem takeWhile_dropWhile_newline {inClass : Char → Bool} (h : inClass '\n' = false)
    (cs ds : List Char) :
    (cs ++ '\n' :: ds).takeWhile inClass = cs.takeWhile inClass ∧
      (cs ++ '\n' :: ds).dropWhile inClass = cs.dropWhile inClass ++ '\n' :: ds := by
  induction cs with
  | nil => simp [h]
  | cons d cs ih => cases hd : inClass d <;> simp [hd, ih]

theorem run_newline {inClass : Char → Bool} (h : inClass '\n' = false)
    (token : List Char → Token) (c : Char) (cs ds : List Char) :
    run inClass token c (cs ++ '\n' :: ds) = (run inClass token c cs).followedBy ('\n' :: ds) := by
  obtain ⟨htake, hdrop⟩ := takeWhile_dropWhile_newline h cs ds
  rw [run, htake, hdrop]
  rfl

theorem stringBody?_followed {cs text used rest : List Char}
    (h : stringBody? cs = some (text, used, rest)) (ds : List Char) :
    stringBody? (cs ++ ds) = some (text, used, rest ++ ds) := by
  obtain ⟨body, rfl, hunescapes⟩ := unescapes_of_stringBody? h
  have hbody := stringBody?_of_unescapes hunescapes (rest ++ ds)
  rw [← stringBody?_append h]
  simpa using hbody

theorem string_followed {pos : Position} {cs : List Char}
    (h : ∀ p, (string pos cs).token ≠ .invalid (.unterminatedString p)) (ds : List Char) :
    string pos (cs ++ ds) = (string pos cs).followedBy ds := by
  cases hbody : stringBody? cs with
  | none => exact absurd (by rw [string, hbody]) (h (pos.advanceAll ('"' :: cs)))
  | some read =>
    obtain ⟨text, used, rest⟩ := read
    rw [string, string, stringBody?_followed hbody ds, hbody]
    rfl

theorem compound?_newline {c : Char} {single : Symbol} {pairs : List (Char × Symbol)}
    (h : Symbol.compounds? c = some (single, pairs)) (cs ds : List Char) :
    compound? pairs (cs ++ '\n' :: ds) =
      (compound? pairs cs).map fun found => (found.1, found.2.1, found.2.2 ++ '\n' :: ds) := by
  cases cs with
  | nil =>
    have hnewline : pairs.lookup '\n' = none := lookup_blank h rfl
    simp [compound?, hnewline]
  | cons d cs => cases hlookup : pairs.lookup d <;> simp [compound?, hlookup]

theorem symbol_newline (pos : Position) (c : Char) (cs ds : List Char) :
    symbol pos c (cs ++ '\n' :: ds) = (symbol pos c cs).followedBy ('\n' :: ds) := by
  by_cases hparen : c = '('
  · subst hparen
    cases cs with
    | nil => rfl
    | cons d cs =>
      by_cases hd : d = ')'
      · subst hd
        rfl
      · simp [symbol, hd, followedBy]
  · cases hsingle : Symbol.ofChar? c with
    | some s =>
      rw [symbol_of_ofChar? hsingle, symbol_of_ofChar? hsingle]
      rfl
    | none =>
      cases hrow : Symbol.compounds? c with
      | none =>
        simp only [symbol, if_neg hparen, hsingle, hrow]
        rfl
      | some row =>
        obtain ⟨single, pairs⟩ := row
        simp only [symbol, if_neg hparen, hsingle, hrow, compound?_newline hrow]
        cases compound? pairs cs <;> rfl

/-- A lexeme ends before a newline, unless it is a string that is not closed. -/
theorem read_newline {pos : Position} {c : Char} {cs : List Char}
    (h : ∀ p, (read pos c cs).token ≠ .invalid (.unterminatedString p)) (ds : List Char) :
    read pos c (cs ++ '\n' :: ds) = (read pos c cs).followedBy ('\n' :: ds) := by
  unfold read at h ⊢
  split
  · exact run_newline rfl _ c cs ds
  · next hword =>
    split
    · exact run_newline rfl _ c cs ds
    · next hdigit =>
      split
      · next hquote =>
        rw [if_neg hword, if_neg hdigit, if_pos hquote] at h
        exact string_followed h ('\n' :: ds)
      · exact symbol_newline pos c cs ds

end Lexeme

/-! ### Tokens before and after a newline -/

namespace Scanner

theorem tokens_newline (p : Position) (cs ds : List Char)
    (h : ∀ t ∈ (Scanner.mk p cs false).tokens, ∀ q, t ≠ .invalid (.unterminatedString q)) :
    ∃ us eof, (Scanner.mk p cs false).tokens = us ++ [.endOfFile eof] ∧
      (Scanner.mk p (cs ++ '\n' :: ds) false).tokens =
        us ++ (Scanner.mk (eof.advance '\n') ds false).tokens := by
  have hlength := length_skipTrivia_le false p cs
  have hjoined := skipTrivia_newline false p cs ds
  rcases hskip : skipTrivia false p cs with ⟨q, rest⟩
  rw [hskip] at hlength hjoined
  cases rest with
  | nil =>
    refine ⟨[], q, tokens_of_trivia hskip, tokens_congr ?_⟩
    simp only [next?, hjoined]
  | cons c rest =>
    rw [tokens_of_lexeme hskip, List.forall_mem_cons] at h
    obtain ⟨hlexeme, hlater⟩ := h
    have hread := Lexeme.length_rest_read_le q c rest
    obtain ⟨us, eof, htokens, hnext⟩ := tokens_newline _ _ ds hlater
    refine ⟨(Lexeme.read q c rest).token :: us, eof, ?_, ?_⟩
    · rw [tokens_of_lexeme hskip, htokens]
      rfl
    · rw [tokens_of_lexeme hjoined, Lexeme.read_newline hlexeme, List.cons_append, ← hnext]
      rfl
termination_by cs.length
decreasing_by
  simp only [List.length_cons] at hlength
  omega

end Scanner

namespace Token

theorem faults_append (us vs : List Token) : faults (us ++ vs) = faults us ++ faults vs :=
  List.filterMap_append ..

/-- Scanning is compositional over lines. If no string is left open at the end of a text, then the tokens
of the text, a newline and another text are those of the first without its end of file, and those of
the second as many lines further down as the first one has. The diagnostics recorded are those of the
first and then those of the second, moved down in the same way. -/
theorem scan_line_by_line {first : String}
    (h : ∀ d ∈ faults (scan first), d.kind ≠ .unterminatedString) (second : String) :
    ∃ us eof, scan first = us ++ [.endOfFile eof] ∧
      scan (first ++ "\n" ++ second) =
        us ++ (scan second).map (mapPos (Position.shift eof.line)) ∧
      ∀ log, (scanInto log (first ++ "\n" ++ second)).2 =
        (scanInto log first).2.append
          ((faults (scan second)).map (Diagnostic.mapPos (Position.shift eof.line))) := by
  have hclosed : ∀ t ∈ scan first, ∀ q, t ≠ .invalid (.unterminatedString q) := by
    rintro t ht q rfl
    exact h (.unterminatedString q) (List.mem_filterMap.2 ⟨_, ht, rfl⟩) rfl
  obtain ⟨us, eof, hfirst, hjoined⟩ :=
    Scanner.tokens_newline .start first.toList second.toList hclosed
  -- the text after the newline starts in the first column
  have hstart : Scanner.mk (eof.advance '\n') second.toList false =
      (Scanner.start second).shift eof.line := by
    rw [Scanner.shift, Scanner.start, Position.shift, Position.start, Nat.add_comm]
    rfl
  have hscan : scan (first ++ "\n" ++ second) =
      us ++ (scan second).map (mapPos (Position.shift eof.line)) := by
    have htext : (first ++ "\n" ++ second).toList = first.toList ++ '\n' :: second.toList := by
      simp
    rw [hstart, Scanner.tokens_shift] at hjoined
    rw [scan, Scanner.start, htext]
    exact hjoined
  have hfaults : faults (scan first) = faults us := by
    have hlast : faults [.endOfFile eof] = [] := rfl
    have hscanned : scan first = us ++ [.endOfFile eof] := hfirst
    rw [hscanned, faults_append, hlast, List.append_nil]
  refine ⟨us, eof, hfirst, hscan, fun log => ?_⟩
  simp only [scanInto, hscan, faults_append, faults_map_mapPos, hfaults,
    DiagnosticLog.append_append]

theorem scan_line_by_line_openParen :
    (∀ d ∈ faults (scan "@ ("), d.kind ≠ .unterminatedString) ∧
      scan ("@ (" ++ "\n" ++ ") //") =
        [.invalid (.unknownToken ⟨1, 1⟩ "@"), .symbol .leftParen ⟨1, 3⟩,
          .symbol .rightParen ⟨2, 1⟩, .endOfFile ⟨2, 5⟩] := by
  have hfirst : scan "@ (" = [.invalid (.unknownToken ⟨1, 1⟩ "@"), .symbol .leftParen ⟨1, 3⟩] ++
      [.endOfFile ⟨1, 4⟩] := by decide +kernel
  have hsecond : scan ") //" = [.symbol .rightParen ⟨1, 1⟩, .endOfFile ⟨1, 5⟩] := by decide +kernel
  have hclosed : ∀ d ∈ faults (scan "@ ("), d.kind ≠ .unterminatedString := by
    rw [hfirst]
    decide
  obtain ⟨us, eof, hscan, hjoined, -⟩ := scan_line_by_line hclosed ") //"
  obtain ⟨rfl, heof⟩ := List.append_inj' (hfirst.symm.trans hscan) rfl
  obtain rfl : ⟨1, 4⟩ = eof := by simpa using heof
  rw [hsecond] at hjoined
  exact ⟨hclosed, hjoined⟩

end Token

end ExprLang
