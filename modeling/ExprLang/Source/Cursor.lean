import ExprLang.Position
import ExprLang.Text

/-! # Character cursors

A cursor walks over a source text and knows the position of the next character and of the one it
handed out last. It can hand out characters as they stand, or only those that are left when blanks
and comments are skipped. A comment starts at two slashes and runs through the next newline. -/

namespace ExprLang

/-- Skips blanks and comments. The flag tells whether the text starts inside a comment. -/
def skipTrivia : Bool → Position → List Char → Position × List Char
  | _, p, [] => (p, [])
  | true, p, c :: cs => skipTrivia (c != '\n') (p.advance c) cs
  | false, p, c :: cs =>
    if Text.isBlank c then skipTrivia false (p.advance c) cs
    else if c = '/' && cs.head? == some '/' then skipTrivia true (p.advance c) cs
    else (p, c :: cs)

theorem length_skipTrivia_le (inComment : Bool) (p : Position) (cs : List Char) :
    (skipTrivia inComment p cs).2.length ≤ cs.length := by
  fun_induction skipTrivia inComment p cs <;> simp_all <;> omega

structure Cursor where
  rest : List Char
  /-- The position of the next character. -/
  pos : Position
  /-- The position of the character handed out last. -/
  last : Position
deriving DecidableEq, Repr

namespace Cursor

def start (source : String) : Cursor := ⟨source.toList, Position.start, Position.start⟩

def atEnd (cursor : Cursor) : Bool := cursor.rest.isEmpty

/-- The next character as it stands, without taking it. -/
def peek? (cursor : Cursor) : Option Char := cursor.rest.head?

def nextRaw (cursor : Cursor) : Option Char × Cursor :=
  match cursor.rest with
  | [] => (none, cursor)
  | c :: cs => (some c, ⟨cs, cursor.pos.advance c, cursor.pos⟩)

def skip (cursor : Cursor) : Cursor :=
  let (pos, rest) := skipTrivia false cursor.pos cursor.rest
  ⟨rest, pos, cursor.last⟩

/-- Takes the next character that is neither blank nor part of a comment. -/
def next (cursor : Cursor) : Option Char × Cursor := cursor.skip.nextRaw

theorem length_skip_le (cursor : Cursor) : cursor.skip.rest.length ≤ cursor.rest.length :=
  length_skipTrivia_le false cursor.pos cursor.rest

theorem length_next_lt {cursor after : Cursor} {c : Char} (h : cursor.next = (some c, after)) :
    after.rest.length < cursor.rest.length := by
  have hskip := length_skip_le cursor
  unfold next nextRaw at h
  split at h
  · simp at h
  · next hrest =>
    simp only [Prod.mk.injEq] at h
    obtain ⟨_, rfl⟩ := h
    simp only [hrest, List.length_cons] at hskip
    exact hskip

/-- Takes all the characters that are left when blanks and comments are skipped. -/
def drain (cursor : Cursor) : List Char × Cursor :=
  match _h : cursor.next with
  | (none, after) => ([], after)
  | (some c, after) =>
    let (cs, last) := drain after
    (c :: cs, last)
termination_by cursor.rest.length
decreasing_by exact length_next_lt _h

end Cursor

end ExprLang
