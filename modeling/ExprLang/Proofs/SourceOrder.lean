import ExprLang.Proofs.ParserRun
import ExprLang.Proofs.Scanning

/-! # The order of a source

Positions are ordered by line and then by column. Reading on in a source leads to later positions, so
the tokens of a source stand at strictly increasing positions, and the end of file after them all. -/

namespace ExprLang

namespace Position

def Before (p q : Position) : Prop :=
  p.line < q.line ∨ (p.line = q.line ∧ p.column < q.column)

theorem Before.trans {p q r : Position} (hpq : p.Before q) (hqr : q.Before r) : p.Before r := by
  unfold Before at *
  omega

theorem Before.ne {p q : Position} (h : p.Before q) : p ≠ q := by
  rintro rfl
  unfold Before at h
  omega

theorem before_advance (p : Position) (c : Char) : p.Before (p.advance c) := by
  unfold Before advance
  split
  · exact .inl (Nat.lt_succ_self p.line)
  · exact .inr ⟨rfl, Nat.lt_succ_self p.column⟩

theorem before_advanceAll (p : Position) (c : Char) (cs : List Char) :
    p.Before (p.advanceAll (c :: cs)) := by
  induction cs generalizing p c with
  | nil => exact before_advance p c
  | cons d cs ih => exact (before_advance p c).trans (ih (p.advance c) d)

end Position

theorem positionAt_before {s : List Char} {m n : Nat} (hmn : m < n) (hn : n ≤ s.length) :
    (positionAt s m).Before (positionAt s n) := by
  have hsplit : s.take n = s.take m ++ (s.drop m).take (n - m) := by
    rw [← List.take_add, Nat.add_sub_cancel' (Nat.le_of_lt hmn)]
  have hlength : ((s.drop m).take (n - m)).length = n - m := by
    simp only [List.length_take, List.length_drop]
    omega
  unfold positionAt
  rw [hsplit, ← Position.advanceAll_ofPrefix]
  cases hslice : (s.drop m).take (n - m) with
  | nil =>
    rw [hslice, List.length_nil] at hlength
    omega
  | cons c cs => exact Position.before_advanceAll _ c cs

/-! ### The tokens of a source -/

theorem Lexeme.Spells.pos?_cases {pos eof : Position} {text rest : List Char} {t : Token}
    (h : Lexeme.Spells pos eof text rest t) : t.pos? = none ∨ t.pos? = some pos := by
  cases h <;> simp [Token.pos?]

/-- Where the tokens of a tiled source stand, and its end. -/
def Piece.positions (s : List Char) (pieces : List Piece) : List Position :=
  pieces.filterMap (·.token.pos?) ++ [positionAt s s.length]

theorem Tiles.positions_increase {s : List Char} {n : Nat} {pieces : List Piece}
    (h : Tiles s n pieces) (hpieces : ∀ piece ∈ pieces, piece.IsToken s) :
    (Piece.positions s pieces).Pairwise Position.Before ∧
      ∀ p ∈ Piece.positions s pieces, ∃ m, n ≤ m ∧ m ≤ s.length ∧ p = positionAt s m := by
  induction h with
  | @nil n hn =>
    refine ⟨List.pairwise_singleton _ _, ?_⟩
    intro p hp
    exact ⟨s.length, hn, Nat.le_refl _, List.mem_singleton.1 hp⟩
  | @cons n piece pieces hstart hstop hlength _ _ ih =>
    obtain ⟨hlater, hfrom⟩ := ih fun q hq => hpieces q (List.mem_cons_of_mem piece hq)
    have hfrom' : ∀ p ∈ Piece.positions s pieces,
        ∃ m, n ≤ m ∧ m ≤ s.length ∧ p = positionAt s m := by
      intro p hp
      obtain ⟨m, hm, hms, rfl⟩ := hfrom p hp
      exact ⟨m, by omega, hms, rfl⟩
    rcases (hpieces piece List.mem_cons_self).spells.pos?_cases with hpos | hpos
    · have heq : Piece.positions s (piece :: pieces) = Piece.positions s pieces := by
        simp [Piece.positions, hpos]
      rw [heq]
      exact ⟨hlater, hfrom'⟩
    · have heq : Piece.positions s (piece :: pieces) =
          positionAt s piece.start :: Piece.positions s pieces := by
        simp [Piece.positions, hpos]
      rw [heq, List.pairwise_cons, List.forall_mem_cons]
      refine ⟨⟨?_, hlater⟩, ⟨piece.start, hstart, by omega, rfl⟩, hfrom'⟩
      intro p hp
      obtain ⟨m, hm, hms, rfl⟩ := hfrom p hp
      exact positionAt_before (by omega) hms

/-- A scanned source is its tokens and one end of file, at strictly increasing positions. -/
theorem Token.scan_positions_increase (source : String) :
    ∃ us eof, Token.scan source = us ++ [.endOfFile eof] ∧ (∀ t ∈ us, t.isEndOfFile = false) ∧
      ((Token.scan source).filterMap Token.pos?).Pairwise Position.Before := by
  obtain ⟨pieces, htokens, htiles, hpieces⟩ := Scanner.tokens_tile [] source.toList
  have hscan : Token.scan source =
      pieces.map Piece.token ++ [.endOfFile (.ofPrefix source.toList)] := htokens
  refine ⟨pieces.map Piece.token, .ofPrefix source.toList, hscan, ?_, ?_⟩
  · intro t ht
    obtain ⟨piece, hpiece, rfl⟩ := List.mem_map.1 ht
    have hne := (hpieces piece hpiece).spells.ne_endOfFile
    cases htoken : piece.token with
    | endOfFile pos => exact absurd htoken (hne pos)
    | symbol | keyword | literal | invalid => rfl
  · have hpositions : (Token.scan source).filterMap Token.pos? =
        Piece.positions source.toList pieces := by
      rw [hscan, Piece.positions, positionAt_length, List.filterMap_append, List.filterMap_map]
      rfl
    rw [hpositions]
    exact (htiles.positions_increase hpieces).1

end ExprLang
