/-! # Positions

A position is a line and a column of a source text. Both count from one, a column counts characters,
and only a newline ends a line. -/

namespace ExprLang

structure Position where
  line : Nat
  column : Nat
deriving DecidableEq, Repr

namespace Position

def start : Position := ⟨1, 1⟩

/-- The position that stands in before any token has given one. -/
def unknown : Position := ⟨0, 0⟩

def advance (p : Position) (c : Char) : Position :=
  if c = '\n' then ⟨p.line + 1, 1⟩ else ⟨p.line, p.column + 1⟩

def advanceAll (p : Position) (cs : List Char) : Position := cs.foldl advance p

def text (p : Position) : String := "(" ++ p.line.repr ++ ", " ++ p.column.repr ++ ")"

end Position

end ExprLang
