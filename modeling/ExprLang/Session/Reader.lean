import ExprLang.Json.Reader
import ExprLang.Session.Report

/-! # Reading reports

A report from its line. Only the members that `Report.toJson` writes are taken, in its order. -/

namespace ExprLang

namespace Json

def toOption? {α : Type} (decode? : Json → Option α) : Json → Option (Option α)
  | null => some none
  | value => (decode? value).map some

def number? : Json → Option Nat
  | number n => some n
  | _ => none

def string? : Json → Option String
  | string text => some text
  | _ => none

end Json

namespace Report

def Entry.ofJson? : Json → Option Entry
  | .object [("kind", .string kind), ("message", .string message), ("line", line),
      ("column", column), ("text", .string text)] => do
    return { kind := kind, message := message, line := ← line.toOption? Json.number?,
             column := ← column.toOption? Json.number?, text := text }
  | _ => none

def ofJson? : Json → Option Report
  | .object [("formatVersion", .number version), ("source", .string source), ("ok", .bool ok),
      ("value", value), ("valueType", valueType), ("summary", summary), ("errors", .array errors),
      ("tokens", tokens), ("ast", tree)] => do
    if version = formatVersion then
      return { source := source, ok := ok, value := ← value.toOption? Json.string?,
               valueType := ← valueType.toOption? Json.string?,
               summary := ← summary.toOption? Json.string?,
               errors := ← errors.mapM Entry.ofJson?,
               tokens := ← tokens.toOption? Json.string?, tree := ← tree.toOption? Json.string? }
    else none
  | _ => none

def ofLine? (line : String) : Option Report := (Json.read? line).bind ofJson?

end Report

end ExprLang
