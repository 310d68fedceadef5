import ExprLang.Token.Symbol

/-! # Operators and delimiters of the grammar

Two-sided operators have five levels of precedence and group to the left at each of them. Prefix
operators bind tighter than all of these. Parentheses and curly brackets group. -/

namespace ExprLang

namespace Symbol

/-- The level of a two-sided operator: equality, comparison, sum, product and power bind tighter in
this order. -/
def level? : Symbol → Option Nat
  | doubleEquals | exclamationEquals => some 0
  | less | greater | lessEquals | greaterEquals => some 1
  | plus | minus => some 2
  | asterisk | slash => some 3
  | caret => some 4
  | _ => none

def isPrefixOperator : Symbol → Bool
  | exclamation | minus => true
  | _ => false

def isCloser : Symbol → Bool
  | rightParen | rightCurly | rightSquare => true
  | _ => false

end Symbol

inductive Delimiter where
  | paren
  | curly
deriving DecidableEq, Repr

namespace Delimiter

def opening : Delimiter → Symbol
  | paren => .leftParen
  | curly => .leftCurly

def closing : Delimiter → Symbol
  | paren => .rightParen
  | curly => .rightCurly

def ofOpening? : Symbol → Option Delimiter
  | .leftParen => some paren
  | .leftCurly => some curly
  | _ => none

end Delimiter

end ExprLang
