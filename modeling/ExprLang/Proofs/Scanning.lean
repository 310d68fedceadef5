import ExprLang.Proofs.Lexemes

/-! # Tokens and their places in the source

The tokens of a source are slices of it, one after the other, with nothing but blanks and comments
around them. Every slice spells its token, stands where the token says that it stands, and is as long
as possible. -/

namespace ExprLang

/-- A token and the offsets where its slice of the source starts and stops. -/
structure Piece where
  token : Token
  start : Nat
  stop : Nat

def positionAt (s : List Char) (n : Nat) : Position := .ofPrefix (s.take n)

theorem positionAt_length (s : List Char) : positionAt s s.length = .ofPrefix s := by
  rw [positionAt, List.take_length]

theorem positionAt_append (before after : List Char) :
    positionAt (before ++ after) before.length = .ofPrefix before := by
  rw [positionAt, List.take_left]

/-- `Tiles s n pieces`: from the offset `n` on, the source consists of the pieces, one after the other,
and of trivia around them. -/
inductive Tiles (s : List Char) : Nat → List Piece → Prop
  | nil {n : Nat} : n ≤ s.length → Trivia true (s.drop n) → Tiles s n []
  | cons {n : Nat} {piece : Piece} {pieces : List Piece} :
    n ≤ piece.start → piece.start < piece.stop → piece.stop ≤ s.length →
      Trivia false (s.extract n piece.start) → Tiles s piece.stop pieces →
      Tiles s n (piece :: pieces)

namespace Piece

def text (s : List Char) (piece : Piece) : List Char := s.extract piece.start piece.stop

/-- A piece is a token of the source: its slice spells the token and goes on as far as it can. -/
structure IsToken (s : List Char) (piece : Piece) : Prop where
  spells : Lexeme.Spells (positionAt s piece.start) (positionAt s s.length) (piece.text s)
    (s.drop piece.stop) piece.token
  maximal : Lexeme.Maximal (piece.text s) (s.drop piece.stop) piece.token

end Piece

theorem extract_append (before slice after : List Char) :
    (before ++ (slice ++ after)).extract before.length (before ++ slice).length = slice := by
  simp [List.extract]

theorem Lexeme.isToken_read (before : List Char) {c : Char} {cs : List Char}
    (hsettled : Settled (c :: cs)) :
    Piece.IsToken (before ++ c :: cs)
      ⟨(Lexeme.read (.ofPrefix before) c cs).token, before.length,
        (before ++ (Lexeme.read (.ofPrefix before) c cs).text).length⟩ := by
  have happ := Lexeme.read_append (.ofPrefix before) c cs
  have hspells := Lexeme.read_spells hsettled (.ofPrefix before) (.ofPrefix (before ++ c :: cs))
    (Position.advanceAll_ofPrefix before (c :: cs)).symm
  have hmaximal := Lexeme.read_maximal hsettled (.ofPrefix before)
  generalize Lexeme.read (.ofPrefix before) c cs = lexeme at *
  rw [← happ] at hspells ⊢
  have htext : Piece.text (before ++ (lexeme.text ++ lexeme.rest))
      ⟨lexeme.token, before.length, (before ++ lexeme.text).length⟩ = lexeme.text :=
    extract_append before lexeme.text lexeme.rest
  have hrest : (before ++ (lexeme.text ++ lexeme.rest)).drop (before ++ lexeme.text).length =
      lexeme.rest := by
    rw [← List.append_assoc, List.drop_left]
  constructor
  · rw [htext, hrest, positionAt_append, positionAt_length]
    exact hspells
  · rw [htext, hrest]
    exact hmaximal

namespace Scanner

theorem tokens_eq_cons {s after : Scanner} {t : Token} (h : s.next? = some (t, after)) :
    s.tokens = t :: after.tokens := by
  rw [tokens]
  split
  · next hnone => simp [h] at hnone
  · next hsome =>
    rw [h] at hsome
    obtain ⟨rfl, rfl⟩ := Prod.mk.inj (Option.some.inj hsome)
    rfl

theorem tokens_of_next?_eq_none {s : Scanner} (h : s.next? = none) : s.tokens = [] := by
  rw [tokens]
  split
  · rfl
  · next hsome => simp [h] at hsome

theorem tokens_eq_nil {s : Scanner} (h : s.finished = true) : s.tokens = [] := by
  rw [tokens]
  split
  · rfl
  · next hsome => simp [next?, h] at hsome

theorem tokens_of_trivia {p q : Position} {cs : List Char}
    (h : skipTrivia false p cs = (q, [])) : (Scanner.mk p cs false).tokens = [.endOfFile q] := by
  have hnext : (Scanner.mk p cs false).next? = some (.endOfFile q, ⟨q, [], true⟩) := by
    simp [next?, h]
  rw [tokens_eq_cons hnext, tokens_eq_nil rfl]

theorem tokens_of_lexeme {p q : Position} {c : Char} {cs rest : List Char}
    (h : skipTrivia false p cs = (q, c :: rest)) :
    (Scanner.mk p cs false).tokens = (Lexeme.read q c rest).token ::
      (Scanner.mk (q.advanceAll (Lexeme.read q c rest).text) (Lexeme.read q c rest).rest
        false).tokens := by
  apply tokens_eq_cons
  simp [next?, h]

/-- The tokens that are left after a part of the source cover the rest of it. -/
theorem tokens_tile (before cs : List Char) :
    ∃ pieces : List Piece,
      (Scanner.mk (.ofPrefix before) cs false).tokens =
        pieces.map Piece.token ++ [.endOfFile (.ofPrefix (before ++ cs))] ∧
      Tiles (before ++ cs) before.length pieces ∧
      ∀ piece ∈ pieces, piece.IsToken (before ++ cs) := by
  -- after the trivia in front either the source is over, or one lexeme and a shorter rest follow
  obtain ⟨gap, happ, hpos, hgap, hsettled⟩ := skipTrivia_spec false (.ofPrefix before) cs
  rcases hskip : skipTrivia false (.ofPrefix before) cs with ⟨q, rest⟩
  simp only [hskip] at happ hpos hgap hsettled
  rw [Position.advanceAll_ofPrefix] at hpos
  cases rest with
  | nil =>
    rw [List.append_nil] at happ
    subst happ hpos
    refine ⟨[], by simp [tokens_of_trivia hskip], .nil (by simp) ?_, by simp⟩
    simpa using hgap
  | cons c rest =>
    subst hpos
    have hread := Lexeme.read_append (.ofPrefix (before ++ gap)) c rest
    have hshorter := Lexeme.length_rest_read_le (.ofPrefix (before ++ gap)) c rest
    have htoken := Lexeme.isToken_read (before ++ gap) hsettled
    rw [tokens_of_lexeme hskip, Position.advanceAll_ofPrefix]
    generalize Lexeme.read (.ofPrefix (before ++ gap)) c rest = lexeme at *
    have hwhole : before ++ gap ++ lexeme.text ++ lexeme.rest = before ++ cs := by
      rw [List.append_assoc, hread, happ, List.append_assoc]
    obtain ⟨pieces, htokens, htiles, hpieces⟩ :=
      tokens_tile (before ++ gap ++ lexeme.text) lexeme.rest
    rw [hwhole] at htokens htiles hpieces
    rw [List.append_assoc, ← happ] at htoken
    have hlength := congrArg List.length hread
    have hgap' : (before ++ cs).extract before.length (before ++ gap).length = gap := by
      rw [happ]
      exact extract_append before gap (c :: rest)
    refine ⟨⟨lexeme.token, (before ++ gap).length, (before ++ gap ++ lexeme.text).length⟩ :: pieces,
      by rw [htokens]; rfl, .cons ?_ ?_ ?_ ?_ htiles, ?_⟩
    · simp
    · simp only [List.length_append, List.length_cons] at hlength ⊢
      omega
    · rw [← hwhole]
      simp
    · rw [hgap']
      exact hgap
    · intro piece hpiece
      rcases List.mem_cons.1 hpiece with rfl | hpiece
      · exact htoken
      · exact hpieces piece hpiece
termination_by cs.length
decreasing_by
  rw [happ, List.length_append, List.length_cons]
  omega

end Scanner

/-- Scanning loses nothing and duplicates nothing: the tokens of a source are slices of it, in order and
with nothing but trivia around them, and one end of file after the last character. Every slice spells
its token at the position of its start and goes on as far as it can. -/
theorem Token.scan_tiles_source (source : String) :
    ∃ pieces : List Piece,
      Token.scan source =
        pieces.map Piece.token ++ [.endOfFile (positionAt source.toList source.toList.length)] ∧
      Tiles source.toList 0 pieces ∧
      ∀ piece ∈ pieces, piece.IsToken source.toList ∧ ∀ pos, piece.token ≠ .endOfFile pos := by
  obtain ⟨pieces, htokens, htiles, hpieces⟩ := Scanner.tokens_tile [] source.toList
  refine ⟨pieces, ?_, htiles, fun piece hpiece => ⟨hpieces piece hpiece, ?_⟩⟩
  · rw [positionAt_length]
    exact htokens
  · exact (hpieces piece hpiece).spells.ne_endOfFile

end ExprLang
