import ExprLang.Expr.Parse

/-! # Parsers

A parser is used for one list of tokens after another. It keeps the stream that it reads and how far
the reading has come, and a parse puts both back first. Diagnostics go to the log token by token, so
those found before a parse is given up stay there. -/

namespace ExprLang

structure Parser where
  stream : TokenStream
  phase : Parse.Phase
deriving DecidableEq, Repr

/-- The open groups of a stack by their delimiters, the innermost first. -/
def Parse.openDelimiters : List Frame → List (Delimiter × Position)
  | [] => []
  | .group delimiter pos :: stack => (delimiter, pos) :: openDelimiters stack
  | _ :: stack => openDelimiters stack

namespace Parser

def new : Parser := ⟨.ofList [], .operand []⟩

def openDelimiters (parser : Parser) : List (Delimiter × Position) :=
  Parse.openDelimiters parser.phase.stack

def complete (parser : Parser) (limit : Nat) (log : DiagnosticLog) :
    Option Tree × Parser × DiagnosticLog :=
  let eof := parser.stream.peek.pos
  let (root, ds) := Parse.finish parser.stream.trail eof parser.phase
  (if root.depth ≤ limit then some ⟨root, eof⟩ else none,
    { parser with phase := .trailing root true }, log.append ds)

/-- Reads up to the end of the tokens, and gives up where the stack grows past the depth limit. -/
def read (limit : Nat) (log : DiagnosticLog) (trail : TokenTrail) (phase : Parse.Phase) :
    List Token → Option Tree × Parser × DiagnosticLog
  | [] => complete ⟨⟨trail, []⟩, phase⟩ limit log
  | .endOfFile pos :: ts => complete ⟨⟨trail, .endOfFile pos :: ts⟩, phase⟩ limit log
  | t :: ts =>
    let (phase, ds) := Parse.step trail phase t
    if phase.stack.length ≤ limit then read limit (log.append ds) (trail.after t) phase ts
    else (none, ⟨⟨trail.after t, ts⟩, phase⟩, log.append ds)

/-- Parses tokens. There is no tree if it would be deeper than `limit`. -/
def parse (parser : Parser) (limit : Nat) (log : DiagnosticLog) (tokens : List Token) :
    Option Tree × Parser × DiagnosticLog :=
  let begun := { parser with stream := .ofList tokens, phase := .operand [] }
  read limit log begun.stream.trail begun.phase begun.stream.rest

end Parser

end ExprLang
