import ExprLang.Diagnostic.Log
import ExprLang.Json
import ExprLang.Typed.Value

/-! # Reports

A report tells the result of one run in a form that programs can read: one JSON object on one line. -/

namespace ExprLang

/-- What went wrong, as far as the user can mend it. -/
inductive Failure where
  /-- A script could not be read. -/
  | script (message : String)
  /-- The settings are wrong. -/
  | settings (message : String)
  /-- Binding or evaluation stopped. -/
  | diagnostic (diagnostic : Diagnostic)
  /-- The source was rejected. -/
  | rejected (diagnostics : List Diagnostic)
deriving DecidableEq, Repr

namespace Failure

def message : Failure → String
  | script message => message
  | settings message => message
  | diagnostic d => d.text
  | rejected ds => Diagnostic.summary ds

def diagnostics : Failure → List Diagnostic
  | script _ => []
  | settings _ => []
  | diagnostic d => [d]
  | rejected ds => ds

/-- The failure as lines of text. A message that stands alone is shown without blanks at its end. -/
def lines : Failure → List String
  | rejected ds => Diagnostic.reportLines ds
  | failure => [Text.trimEnd failure.message]

end Failure

namespace Report

structure Entry where
  kind : String
  message : String
  line : Option Nat
  column : Option Nat
  text : String
deriving DecidableEq, Repr

def Entry.ofDiagnostic (d : Diagnostic) : Entry where
  kind := d.kind.name
  message := d.message
  line := d.pos?.map Position.line
  column := d.pos?.map Position.column
  text := d.text

def Entry.toJson (entry : Entry) : Json :=
  .object [("kind", .string entry.kind), ("message", .string entry.message),
    ("line", .ofOption .number entry.line), ("column", .ofOption .number entry.column),
    ("text", .string entry.text)]

end Report

structure Report where
  source : String
  ok : Bool
  value : Option String
  valueType : Option String
  summary : Option String
  errors : List Report.Entry
  tokens : Option String
  tree : Option String
deriving DecidableEq, Repr

namespace Report

def formatVersion : Nat := 1

def success (source : String) (value : Value) (tokens tree : Option String) : Report where
  source := source
  ok := true
  value := some value.print
  valueType := some value.type.name
  summary := none
  errors := []
  tokens := tokens
  tree := tree

def failure (source : String) (failure : Failure) (tokens tree : Option String) : Report where
  source := source
  ok := false
  value := none
  valueType := none
  summary := some failure.message
  errors := failure.diagnostics.map Entry.ofDiagnostic
  tokens := tokens
  tree := tree

def toJson (report : Report) : Json :=
  .object [("formatVersion", .number formatVersion), ("source", .string report.source),
    ("ok", .bool report.ok), ("value", .ofOption .string report.value),
    ("valueType", .ofOption .string report.valueType),
    ("summary", .ofOption .string report.summary), ("errors", .array (report.errors.map Entry.toJson)),
    ("tokens", .ofOption .string report.tokens), ("ast", .ofOption .string report.tree)]

def line (report : Report) : String := report.toJson.line

end Report

end ExprLang
