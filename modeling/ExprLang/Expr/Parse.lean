import ExprLang.Diagnostic.Log
import ExprLang.Expr.Basic
import ExprLang.Expr.Operators
import ExprLang.Token.Stream

/-! # Parsing

Tokens are read one by one from the left. A stack holds what waits for a right operand: prefix
operators, two-sided operators with their left operand, and open groups. When a two-sided operator
arrives, everything on the stack that binds at least as tightly is completed first, so that operators
of one level group to the left.

Parsing never fails. A missing operand is reported and replaced by a void literal, a closer that does
not fit the innermost open group is reported and skipped, and a group that does not end is reported
at its opening delimiter. The first token after the expression is reported; the rest are skipped. -/

namespace ExprLang

/-- A tree and the position where its source ends. -/
structure Tree where
  root : Expr
  eof : Position
deriving DecidableEq, Repr

namespace Parse

/-! ### The stack -/

/-- Something that waits for its right operand or for its closer. -/
inductive Frame where
  | unary (op : Symbol) (pos : Position)
  | binary (level : Nat) (left : Expr) (op : Symbol) (pos : Position)
  | group (delimiter : Delimiter) (pos : Position)
deriving DecidableEq, Repr

def expectedCloser? : List Frame → Option Symbol
  | [] => none
  | .group delimiter _ :: _ => some delimiter.closing
  | _ :: stack => expectedCloser? stack

/-- Completes what binds at least as tightly as a level, up to the innermost open group. -/
def reduce (level : Nat) : List Frame → Expr → List Frame × Expr
  | .unary op pos :: stack, e => reduce level stack (.unary op pos e)
  | .binary l left op pos :: stack, e =>
    if level ≤ l then reduce level stack (.binary op pos left e)
    else (.binary l left op pos :: stack, e)
  | stack, e => (stack, e)

/-- Completes everything; the groups that are still open are reported, the innermost first. -/
def unwind : List Frame → Expr → Expr × List Diagnostic
  | [], e => (e, [])
  | .unary op pos :: stack, e => unwind stack (.unary op pos e)
  | .binary _ left op pos :: stack, e => unwind stack (.binary op pos left e)
  | .group delimiter pos :: stack, e =>
    let (root, ds) := unwind stack (.grouping e)
    (root, .unmatchedDelimiter pos delimiter.opening.text :: ds)

/-! ### One token -/

inductive Phase where
  /-- An operand has to come next. -/
  | operand (stack : List Frame)
  /-- An operand is complete; an operator or a closer may follow. -/
  | operator (stack : List Frame) (e : Expr)
  /-- The expression is over; the flag tells whether a token after it has been reported. -/
  | trailing (root : Expr) (reported : Bool)
deriving DecidableEq, Repr

def Phase.stack : Phase → List Frame
  | operand stack => stack
  | operator stack _ => stack
  | trailing _ _ => []

/-- The report about an operand that is missing before a token or before the end. -/
def expectedExpression (trail : TokenTrail) (pos : Position) (found : Option Token) : Diagnostic :=
  let after := trail.previous.elim "" fun t => " after `" ++ t.lexeme ++ "`"
  let before := found.elim "" fun t => ", found `" ++ t.lexeme ++ "`"
  .parseError pos ("expected expression" ++ after ++ before) (found.map Token.lexeme)

/-- The report about a closer that does not close the innermost open group. -/
def stray? (stack : List Frame) : Token → Option Diagnostic
  | .symbol s pos =>
    if s.isCloser && expectedCloser? stack != some s then some (.unmatchedDelimiter pos s.text)
    else none
  | _ => none

/-- A token after the expression. -/
def trailingStep (trail : TokenTrail) (root : Expr) (t : Token) : Phase × List Diagnostic :=
  match t with
  | .invalid _ => (.trailing root false, [])
  | t =>
    (.trailing root true,
      [.parseError (trail.posOf t) ("unexpected token `" ++ t.lexeme ++ "`") (some t.lexeme)])

/-- The expression ends before a token that cannot go on with it. -/
def leave (trail : TokenTrail) (stack : List Frame) (e : Expr) (t : Token) :
    Phase × List Diagnostic :=
  let (root, unclosed) := unwind stack e
  let (phase, ds) := trailingStep trail root t
  (phase, unclosed ++ ds)

def closeGroup (stack : List Frame) (e : Expr) : Phase :=
  match reduce 0 stack e with
  | (.group _ _ :: stack, e) => .operator stack (.grouping e)
  | (stack, e) => .operator stack e

/-- A token after a complete operand. -/
def operatorStep (trail : TokenTrail) (stack : List Frame) (e : Expr) (t : Token) :
    Phase × List Diagnostic :=
  match t with
  | .symbol s pos =>
    if expectedCloser? stack = some s then (closeGroup stack e, [])
    else
      match s.level? with
      | some level =>
        let (stack, left) := reduce level stack e
        (.operand (.binary level left s pos :: stack), [])
      | none => leave trail stack e t
  | t => leave trail stack e t

/-- A token where an operand has to come. A two-sided operator and the expected closer are not used
up by the missing operand. -/
def operandStep (trail : TokenTrail) (stack : List Frame) (t : Token) : Phase × List Diagnostic :=
  let pos := trail.posOf t
  let missing := expectedExpression trail pos (some t)
  match t with
  | .literal (.identifier _) _ => (.operator stack (.placeholder pos), [missing])
  | .literal l pos => (.operator stack (.literal l pos), [])
  | .invalid _ => (.operator stack (.placeholder pos), [])
  | .symbol s pos =>
    if s.isPrefixOperator then (.operand (.unary s pos :: stack), [])
    else
      match Delimiter.ofOpening? s with
      | some delimiter => (.operand (.group delimiter pos :: stack), [])
      | none =>
        if expectedCloser? stack = some s || s.level?.isSome then
          let (phase, ds) := operatorStep trail stack (.placeholder pos) t
          (phase, missing :: ds)
        else (.operator stack (.placeholder pos), [missing])
  | _ => (.operator stack (.placeholder pos), [missing])

def step (trail : TokenTrail) (phase : Phase) (t : Token) : Phase × List Diagnostic :=
  match phase with
  | .trailing root true => (.trailing root true, [])
  | phase =>
    match stray? phase.stack t, phase with
    | some d, phase => (phase, [d])
    | none, .operand stack => operandStep trail stack t
    | none, .operator stack e => operatorStep trail stack e t
    | none, .trailing root _ => trailingStep trail root t

/-! ### All tokens -/

/-- The root of the tree when no token is left. -/
def finish (trail : TokenTrail) (eof : Position) : Phase → Expr × List Diagnostic
  | .operand stack =>
    let (root, ds) := unwind stack (.placeholder eof)
    (root, expectedExpression trail eof none :: ds)
  | .operator stack e => unwind stack e
  | .trailing root _ => (root, [])

/-- Reads tokens up to the first end-of-file token, or to the end of the list. -/
def run (trail : TokenTrail) (phase : Phase) : List Token → Tree × List Diagnostic
  | [] =>
    let (root, ds) := finish trail trail.lastPos phase
    (⟨root, trail.lastPos⟩, ds)
  | .endOfFile pos :: _ =>
    let (root, ds) := finish trail pos phase
    (⟨root, pos⟩, ds)
  | t :: ts =>
    let (phase, ds) := step trail phase t
    let (tree, more) := run (trail.after t) phase ts
    (tree, ds ++ more)

/-- What is reported before the stack holds more than `limit` frames; if it never does, all that a run
reports. -/
def reportsWithin (limit : Nat) (trail : TokenTrail) (phase : Phase) : List Token → List Diagnostic
  | [] => (finish trail trail.lastPos phase).2
  | .endOfFile pos :: _ => (finish trail pos phase).2
  | t :: ts =>
    let (phase, ds) := step trail phase t
    if phase.stack.length ≤ limit then ds ++ reportsWithin limit (trail.after t) phase ts else ds

end Parse

namespace Tree

def parse (tokens : List Token) : Tree × List Diagnostic :=
  Parse.run TokenTrail.start (.operand []) tokens

/-- Parses tokens and records the diagnostics. A tree deeper than `limit` is given up. -/
def parseInto? (limit : Nat) (log : DiagnosticLog) (tokens : List Token) :
    Option (Tree × DiagnosticLog) :=
  let (tree, ds) := parse tokens
  if tree.root.depth ≤ limit then some (tree, log.append ds) else none

/-- The log when a tree is given up. What was reported until then stays in it: parsing stops where the
stack grows past the depth limit, or after the last token if only the tree does. -/
def abandonedLog (limit : Nat) (log : DiagnosticLog) (tokens : List Token) : DiagnosticLog :=
  log.append (Parse.reportsWithin limit TokenTrail.start (.operand []) tokens)

end Tree

end ExprLang
