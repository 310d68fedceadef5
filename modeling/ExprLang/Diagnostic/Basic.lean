import ExprLang.Position

/-! # Diagnostics

A diagnostic says what is wrong with a source and where. The scanner and the parser collect theirs,
binding and evaluation stop at their first one. -/

namespace ExprLang

inductive DiagnosticKind where
  | unknownToken
  | syntaxError
  | unterminatedString
  | parseError
  | unmatchedDelimiter
  | unknownOperator
  | other
deriving DecidableEq, Repr

namespace DiagnosticKind

def name : DiagnosticKind → String
  | unknownToken => "UnknownToken"
  | syntaxError => "SyntaxError"
  | unterminatedString => "UnterminatedString"
  | parseError => "ParseError"
  | unmatchedDelimiter => "UnmatchedDelimiter"
  | unknownOperator => "UnknownOperator"
  | other => "Other"

def all : List DiagnosticKind :=
  [unknownToken, syntaxError, unterminatedString, parseError, unmatchedDelimiter, unknownOperator,
    other]

def ofName? (name : String) : Option DiagnosticKind := all.find? (·.name == name)

end DiagnosticKind

/-- What is wrong, with the position and the piece of source that it is about. -/
inductive Diagnostic where
  | unknownToken (pos : Position) (token : String)
  | syntaxError (pos : Position) (problem : String)
  | unterminatedString (pos : Position)
  | parseError (pos : Position) (problem : String) (found : Option String)
  | unmatchedDelimiter (pos : Position) (delimiter : String)
  | unknownOperator (pos : Position) (operator : String)
  | other (problem : String)
deriving DecidableEq, Repr

namespace Diagnostic

def kind : Diagnostic → DiagnosticKind
  | unknownToken _ _ => .unknownToken
  | syntaxError _ _ => .syntaxError
  | unterminatedString _ => .unterminatedString
  | parseError _ _ _ => .parseError
  | unmatchedDelimiter _ _ => .unmatchedDelimiter
  | unknownOperator _ _ => .unknownOperator
  | other _ => .other

/-- The text without the position. -/
def message : Diagnostic → String
  | unknownToken _ token => "Unknown token `" ++ token ++ "`"
  | syntaxError _ problem => problem
  | unterminatedString _ => "Unterminated string"
  | parseError _ problem _ => problem
  | unmatchedDelimiter _ delimiter => "Unmatched `" ++ delimiter ++ "`"
  | unknownOperator _ operator => "Unknown operator `" ++ operator ++ "`"
  | other problem => problem

def pos? : Diagnostic → Option Position
  | unknownToken pos _ => some pos
  | syntaxError pos _ => some pos
  | unterminatedString pos => some pos
  | parseError pos _ _ => some pos
  | unmatchedDelimiter pos _ => some pos
  | unknownOperator pos _ => some pos
  | other _ => none

/-- The token, delimiter or operator that the diagnostic names. -/
def subject? : Diagnostic → Option String
  | unknownToken _ token => some token
  | syntaxError _ _ => none
  | unterminatedString _ => none
  | parseError _ _ found => found
  | unmatchedDelimiter _ delimiter => some delimiter
  | unknownOperator _ operator => some operator
  | other _ => none

/-- The message, followed by the position if there is one. -/
def text (d : Diagnostic) : String :=
  match d.pos? with
  | none => d.message
  | some pos => d.message ++ " " ++ pos.text

/-- Whether two diagnostics say the same: kind, message and position agree. -/
def same (d e : Diagnostic) : Bool :=
  d.kind = e.kind && d.message == e.message && d.pos? = e.pos?

end Diagnostic

end ExprLang
