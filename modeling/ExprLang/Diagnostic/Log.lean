import ExprLang.Diagnostic.Basic

/-! # Diagnostic logs

The diagnostics of one run in the order in which they were recorded. -/

namespace ExprLang

structure DiagnosticLog where
  entries : List Diagnostic
deriving DecidableEq, Repr

namespace DiagnosticLog

def empty : DiagnosticLog := ⟨[]⟩

def push (log : DiagnosticLog) (d : Diagnostic) : DiagnosticLog := ⟨log.entries ++ [d]⟩

def append (log : DiagnosticLog) (ds : List Diagnostic) : DiagnosticLog := ⟨log.entries ++ ds⟩

def size (log : DiagnosticLog) : Nat := log.entries.length

def isEmpty (log : DiagnosticLog) : Bool := log.entries.isEmpty

def count (log : DiagnosticLog) (kind : DiagnosticKind) : Nat :=
  log.entries.countP (·.kind = kind)

end DiagnosticLog

def Diagnostic.summary (ds : List Diagnostic) : String :=
  "interpreter caught " ++ ds.length.repr ++ " error(s)"

/-- The diagnostics, a line for each, and their summary. -/
def Diagnostic.reportLines (ds : List Diagnostic) : List String :=
  ds.map Diagnostic.text ++ [Diagnostic.summary ds]

end ExprLang
