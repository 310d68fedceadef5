import ExprLang.Expr.Parse
import ExprLang.Token.Scanner
import ExprLang.Typed.Evaluation

/-! # Runs

A run scans and parses a source, and evaluates it if no diagnostic was recorded. A session keeps what
its latest run left behind, and clears it before the next one. -/

namespace ExprLang

/-- Which dumps a run makes. -/
structure RunOptions where
  showTokens : Bool
  showTree : Bool
deriving DecidableEq, Repr

inductive Outcome where
  | value (value : Value)
  /-- The source was not evaluated because of these diagnostics. -/
  | rejected (diagnostics : List Diagnostic)
  /-- Binding or evaluation stopped at this diagnostic. -/
  | failed (diagnostic : Diagnostic)
  /-- The tree is past the depth limit. -/
  | tooDeep
deriving DecidableEq, Repr

def Tree.outcome (tree : Tree) (log : DiagnosticLog) : Outcome :=
  if log.isEmpty then
    match tree.root.evaluate with
    | .ok value => .value value
    | .error diagnostic => .failed diagnostic
  else .rejected log.entries

structure Session where
  options : RunOptions
  log : DiagnosticLog
  tokenDump : Option String
  treeDump : Option String
deriving DecidableEq, Repr

namespace Session

def start (options : RunOptions) : Session := ⟨options, .empty, none, none⟩

def clear (session : Session) : Session :=
  { session with log := .empty, tokenDump := none, treeDump := none }

/-- Scans a source. The lexical diagnostics are recorded, and the tokens are dumped if asked for. -/
def scan (session : Session) (source : String) : List Token × Session :=
  let (tokens, log) := Token.scanInto session.log source
  let scanned := { session with log := log }
  if session.options.showTokens then (tokens, { scanned with tokenDump := some (Token.dump tokens) })
  else (tokens, scanned)

/-- Parses tokens. The diagnostics about them are recorded, and the tree is dumped if asked for. A tree
that is given up is not dumped, but what was reported until then stays recorded. -/
def parse (session : Session) (limit : Nat) (tokens : List Token) : Option Tree × Session :=
  match Tree.parseInto? limit session.log tokens with
  | none => (none, { session with log := Tree.abandonedLog limit session.log tokens })
  | some (tree, log) =>
    let parsed := { session with log := log }
    if session.options.showTree then
      (some tree, { parsed with treeDump := some (tree.root.pretty 0) })
    else (some tree, parsed)

def run (session : Session) (limit : Nat) (source : String) : Outcome × Session :=
  let (tokens, scanned) := session.clear.scan source
  match scanned.parse limit tokens with
  | (none, parsed) => (.tooDeep, parsed)
  | (some tree, parsed) => (tree.outcome parsed.log, parsed)

end Session

/-- The outcome of a source on its own. -/
def evaluateSource (limit : Nat) (source : String) : Outcome :=
  let (tokens, log) := Token.scanInto .empty source
  match Tree.parseInto? limit log tokens with
  | none => .tooDeep
  | some (tree, log) => tree.outcome log

end ExprLang
