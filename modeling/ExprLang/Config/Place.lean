/-! # Places in a settings text

A place is the rest of a settings text together with how far it is from the start, in characters, in
lines and in columns of its line. -/

namespace ExprLang.Yaml

/-! ### Characters -/

def isSpace (c : Char) : Bool := c = ' ' || c = '\t'

def isBreak (c : Char) : Bool :=
  c = '\n' || c = '\u0085' || c = '\u2028' || c = '\u2029'

/-- Whether a line of marks and comments ends here: at a line end or at the end of the text. -/
def endsLine : Option Char → Bool
  | none => true
  | some c => c = '\n' || c = '\u0085'

/-- Whether a word ends here: at a blank, at a line end or at the end of the text. -/
def endsWord (next : Option Char) : Bool := endsLine next || next.any isSpace

/-- The characters that a settings text may hold as they are; all others have to be escaped. -/
def isAllowed (c : Char) : Bool :=
  c = '\t' || c = '\n' || c = '\r' || c = '\u0085' || (' ' ≤ c && c ≤ '~') ||
    ('\u00a0' ≤ c && c ≠ '\ufffe' && c ≠ '\uffff')

def startsWithMark (mark : String) (cs : List Char) : Bool :=
  cs.take 3 = mark.toList && endsWord (cs.drop 3).head?

/-- Whether a text starts with a mark that ends a document. -/
def startsWithDocumentMark (cs : List Char) : Bool :=
  startsWithMark "---" cs || startsWithMark "..." cs

/-! ### Places -/

structure Place where
  rest : List Char
  index : Nat
  line : Nat
  column : Nat
deriving DecidableEq, Repr

namespace Place

def start (cs : List Char) : Place := ⟨cs, 0, 0, 0⟩

/-- The place after the next character. A byte order mark takes no column. -/
def step (p : Place) : Place :=
  match p.rest with
  | [] => p
  | c :: cs =>
    if isBreak c then ⟨cs, p.index + 1, p.line + 1, 0⟩
    else ⟨cs, p.index + 1, p.line, if c = '\ufeff' then p.column else p.column + 1⟩

def skip : Nat → Place → Place
  | 0, p => p
  | n + 1, p => p.step.skip n

def skipWhile (inClass : Char → Bool) (p : Place) : Place :=
  p.skip (p.rest.takeWhile inClass).length

/-- The character that a line break counts as, and the place after it. -/
def lineBreak? (p : Place) : Option (Char × Place) :=
  match p.rest with
  | [] => none
  | c :: _ =>
    if c = '\n' || c = '\u0085' then some ('\n', p.step)
    else if isBreak c then some (c, p.step)
    else none

def skipLine (p : Place) : Place := p.skipWhile fun c => !endsLine (some c)

end Place

/-- How a line break and the breaks of the empty lines after it are read inside a scalar: a newline
alone as a blank, a newline before empty lines as nothing, any other break as itself. -/
def foldBreaks (first : Char) (more : List Char) : List Char :=
  if first ≠ '\n' then first :: more
  else if more.isEmpty then [' ']
  else more

end ExprLang.Yaml
