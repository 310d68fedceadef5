import ExprLang.Logging
import ExprLang.Session.Run

/-! # Trace of a run

The debug records that a run of a named source leaves, in the order of events. -/

namespace ExprLang.Trace

def debug (message : String) : LogRecord := ⟨.debug, message⟩

def recorded (d : Diagnostic) : LogRecord := debug ("Recorded " ++ d.kind.name ++ ": " ++ d.text)

def token (t : Token) : List LogRecord :=
  t.fault?.toList.map recorded ++ [debug ("Token: " ++ t.describe)]

def scanning (source : String) (tokens : List Token) : List LogRecord :=
  tokens.flatMap token ++
    [debug ("Scanned source of length " ++ source.length.repr ++ " into " ++ tokens.length.repr ++
      " tokens")]

def parsing (tree : Tree) (ds : List Diagnostic) (total : Nat) : List LogRecord :=
  ds.map recorded ++
    [debug ("Parsed " ++ tree.root.compact ++ " with " ++ total.repr ++ " error(s) recorded")]

def evaluation (name : String) : Outcome → List LogRecord
  | .value value =>
    [debug ("'" ++ name ++ "' evaluated to " ++ value.type.name ++ " " ++ value.print)]
  | _ => []

/-- All records of a run. They end where a tree past the depth limit is given up. -/
def run (limit : Nat) (name source : String) : List LogRecord :=
  let (tokens, lexical) := Token.scanInto .empty source
  let opening :=
    debug ("Running '" ++ name ++ "' (" ++ source.length.repr ++ " chars)") ::
      scanning source tokens
  match Tree.parseInto? limit .empty tokens with
  | none => opening ++ (Tree.abandonedLog limit .empty tokens).entries.map recorded
  | some (tree, syntactic) =>
    let log := lexical.append syntactic.entries
    opening ++ parsing tree syntactic.entries log.size ++ evaluation name (tree.outcome log)

end ExprLang.Trace
