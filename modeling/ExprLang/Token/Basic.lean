import ExprLang.Diagnostic.Basic
import ExprLang.Number.Printed
import ExprLang.Text
import ExprLang.Token.Symbol

/-! # Tokens

The pieces that a source text consists of. A piece that is no token of the language is kept as an
invalid one together with its diagnostic, so that scanning never stops early. -/

namespace ExprLang

inductive Literal where
  | identifier (name : String)
  | string (text : String)
  | number (value : Binary64)
  | void
deriving DecidableEq, Repr

namespace Literal

def kindName : Literal → String
  | identifier _ => "identifier"
  | string _ => "string"
  | number _ => "number"
  | void => "void"

/-- The literal as messages name it: a string by its bare text. -/
def lexeme : Literal → String
  | identifier name => name
  | string text => text
  | number value => value.print
  | void => "()"

/-- The literal as a source would write it: a string between quotes. -/
def sourceText : Literal → String
  | string text => Text.quote text
  | literal => literal.lexeme

end Literal

inductive Token where
  | symbol (symbol : Symbol) (pos : Position)
  | keyword (keyword : Keyword) (pos : Position)
  | literal (literal : Literal) (pos : Position)
  | endOfFile (pos : Position)
  | invalid (fault : Diagnostic)
deriving DecidableEq, Repr

namespace Token

def kindName : Token → String
  | symbol _ _ => "Symbol"
  | keyword _ _ => "Keyword"
  | literal _ _ => "Literal"
  | endOfFile _ => "EndOfFile"
  | invalid _ => "Invalid"

def lexeme : Token → String
  | symbol s _ => s.text
  | keyword k _ => k.text
  | literal l _ => l.lexeme
  | endOfFile _ => "[EOF]"
  | invalid _ => "[INV]"

/-- The position of a token; an invalid one has none of its own. -/
def pos? : Token → Option Position
  | symbol _ pos => some pos
  | keyword _ pos => some pos
  | literal _ pos => some pos
  | endOfFile pos => some pos
  | invalid _ => none

def fault? : Token → Option Diagnostic
  | invalid fault => some fault
  | _ => none

def describe : Token → String
  | symbol s pos => "Symbol `" ++ s.text ++ "` " ++ pos.text
  | keyword k pos => "Keyword `" ++ k.text ++ "` " ++ pos.text
  | literal l pos => "Literal(" ++ l.kindName ++ ") `" ++ l.lexeme ++ "` " ++ pos.text
  | endOfFile pos => "EndOfFile " ++ pos.text
  | invalid fault => "Invalid: " ++ fault.text

def dump (tokens : List Token) : String :=
  String.join (tokens.map fun token => token.describe ++ "\n")

/-! ### Tokens as source text -/

/-- A token as a source would write it; the end of file and invalid tokens have no such text. -/
def sourceText? : Token → Option String
  | symbol s _ => some s.text
  | keyword k _ => some k.text
  | literal l _ => some l.sourceText
  | endOfFile _ => none
  | invalid _ => none

/-- The texts of tokens with single spaces between them. -/
def toSource (tokens : List Token) : String := " ".intercalate (tokens.filterMap sourceText?)

end Token

end ExprLang
