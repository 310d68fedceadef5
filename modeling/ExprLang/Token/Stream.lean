import ExprLang.Token.Basic

/-! # Token streams

A stream hands out tokens one by one and can look one token ahead. It remembers the last position that
it has seen, also one that it has only looked at. An end-of-file token is never taken: the stream stays
at it. A stream without one ends where its tokens end. -/

namespace ExprLang

/-- What a reader of tokens remembers: the token taken last and the last known position. -/
structure TokenTrail where
  previous : Option Token
  lastPos : Position
deriving DecidableEq, Repr

namespace TokenTrail

def start : TokenTrail := ⟨none, Position.unknown⟩

/-- The position of a token that comes next; one without a position is placed at the last known. -/
def posOf (trail : TokenTrail) (t : Token) : Position := t.pos?.getD trail.lastPos

def after (trail : TokenTrail) (t : Token) : TokenTrail := ⟨some t, trail.posOf t⟩

end TokenTrail

inductive Lookahead where
  | token (token : Token) (pos : Position)
  | endOfFile (pos : Position)
  | endOfStream (pos : Position)
deriving DecidableEq, Repr

namespace Lookahead

def pos : Lookahead → Position
  | token _ pos => pos
  | endOfFile pos => pos
  | endOfStream pos => pos

def isToken : Lookahead → Bool
  | token _ _ => true
  | _ => false

/-- The token that stands next; there is none at the end of a stream without an end-of-file token. -/
def token? : Lookahead → Option Token
  | token t _ => some t
  | endOfFile pos => some (.endOfFile pos)
  | endOfStream _ => none

end Lookahead

structure TokenStream where
  trail : TokenTrail
  rest : List Token
deriving DecidableEq, Repr

namespace TokenStream

def ofList (tokens : List Token) : TokenStream := ⟨TokenTrail.start, tokens⟩

def peek (s : TokenStream) : Lookahead :=
  match s.rest with
  | [] => .endOfStream s.trail.lastPos
  | .endOfFile pos :: _ => .endOfFile pos
  | t :: _ => .token t (s.trail.posOf t)

/-- Looks at what stands next and remembers its position. -/
def look (s : TokenStream) : Lookahead × TokenStream :=
  (s.peek, { s with trail := { s.trail with lastPos := s.peek.pos } })

/-- The stream after its next token, or the stream itself at the end. -/
def advance (s : TokenStream) : TokenStream :=
  match s.rest with
  | [] => s
  | .endOfFile _ :: _ => s
  | t :: ts => ⟨s.trail.after t, ts⟩

/-- Looks at what stands next and takes it, unless it is the end. -/
def next (s : TokenStream) : Lookahead × TokenStream := (s.look.1, s.look.2.advance)

end TokenStream

end ExprLang
