/-! # Symbols and keywords

The punctuation and the reserved words of the language, each with its spelling. Some symbols are
reserved for later: no source text yields them, yet a tree may carry them. -/

namespace ExprLang

inductive Symbol where
  | leftParen | rightParen | leftSquare | rightSquare | leftCurly | rightCurly
  | hash | comma | period | colon | semicolon | quotationMark | apostrophe
  | plus | minus | asterisk | slash | exclamation | less | greater | equals
  | doubleEquals | plusEquals | minusEquals | asteriskEquals | slashEquals | exclamationEquals
  | lessEquals | greaterEquals | rightArrow
  | ampersand | doubleAmpersand | ampersandEquals | pipe | doublePipe | pipeEquals
  | caret | caretEquals | tilde | tildeEquals | percent | percentEquals
deriving DecidableEq, Repr

namespace Symbol

def text : Symbol → String
  | leftParen => "("
  | rightParen => ")"
  | leftSquare => "["
  | rightSquare => "]"
  | leftCurly => "\x7b"
  | rightCurly => "\x7d"
  | hash => "#"
  | comma => ","
  | period => "."
  | colon => ":"
  | semicolon => ";"
  | quotationMark => "\""
  | apostrophe => "'"
  | plus => "+"
  | minus => "-"
  | asterisk => "*"
  | slash => "/"
  | exclamation => "!"
  | less => "<"
  | greater => ">"
  | equals => "="
  | doubleEquals => "=="
  | plusEquals => "+="
  | minusEquals => "-="
  | asteriskEquals => "*="
  | slashEquals => "/="
  | exclamationEquals => "!="
  | lessEquals => "<="
  | greaterEquals => ">="
  | rightArrow => "->"
  | ampersand => "&"
  | doubleAmpersand => "&&"
  | ampersandEquals => "&="
  | pipe => "|"
  | doublePipe => "||"
  | pipeEquals => "|="
  | caret => "^"
  | caretEquals => "^="
  | tilde => "~"
  | tildeEquals => "~="
  | percent => "%"
  | percentEquals => "%="

def all : List Symbol :=
  [leftParen, rightParen, leftSquare, rightSquare, leftCurly, rightCurly, hash, comma, period, colon,
    semicolon, quotationMark, apostrophe, plus, minus, asterisk, slash, exclamation, less, greater,
    equals, doubleEquals, plusEquals, minusEquals, asteriskEquals, slashEquals, exclamationEquals,
    lessEquals, greaterEquals, rightArrow, ampersand, doubleAmpersand, ampersandEquals, pipe,
    doublePipe, pipeEquals, caret, caretEquals, tilde, tildeEquals, percent, percentEquals]

def ofText? (text : String) : Option Symbol := all.find? (·.text == text)

/-! ### Symbols in a source text -/

/-- The symbol of a character that never begins a longer one. -/
def ofChar? : Char → Option Symbol
  | ';' => some semicolon
  | ',' => some comma
  | '.' => some period
  | ':' => some colon
  | ')' => some rightParen
  | '\x7b' => some leftCurly
  | '\x7d' => some rightCurly
  | '[' => some leftSquare
  | ']' => some rightSquare
  | '\x27' => some apostrophe
  | _ => none

/-- The symbol of a character that may begin a longer one, and the two-character symbols that it
begins, each with its second character. -/
def compounds? : Char → Option (Symbol × List (Char × Symbol))
  | '!' => some (exclamation, [('=', exclamationEquals)])
  | '=' => some (equals, [('=', doubleEquals)])
  | '+' => some (plus, [('=', plusEquals)])
  | '-' => some (minus, [('>', rightArrow), ('=', minusEquals)])
  | '*' => some (asterisk, [('=', asteriskEquals)])
  | '/' => some (slash, [('=', slashEquals)])
  | '^' => some (caret, [('=', caretEquals)])
  | '&' => some (ampersand, [('=', ampersandEquals)])
  | '<' => some (less, [('=', lessEquals)])
  | '>' => some (greater, [('=', greaterEquals)])
  | _ => none

end Symbol

inductive Keyword where
  | ifWord | elseWord | forWord | whileWord | loopWord | returnWord | selfValue | selfType | superWord
  | exportWord | importWord | pubWord | typeWord | implWord | asWord | traitWord
deriving DecidableEq, Repr

namespace Keyword

def text : Keyword → String
  | ifWord => "if"
  | elseWord => "else"
  | forWord => "for"
  | whileWord => "while"
  | loopWord => "loop"
  | returnWord => "return"
  | selfValue => "self"
  | selfType => "Self"
  | superWord => "super"
  | exportWord => "export"
  | importWord => "import"
  | pubWord => "pub"
  | typeWord => "type"
  | implWord => "impl"
  | asWord => "as"
  | traitWord => "trait"

def all : List Keyword :=
  [ifWord, elseWord, forWord, whileWord, loopWord, returnWord, selfValue, selfType, superWord,
    exportWord, importWord, pubWord, typeWord, implWord, asWord, traitWord]

def ofText? (text : String) : Option Keyword := all.find? (·.text == text)

end Keyword

end ExprLang
