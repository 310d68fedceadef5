import ExprLang.Expr.Basic

/-! # The grammar

Which lists of tokens are expressions, and the tree of each:

    equality   → comparison (("==" | "!=") comparison)*
    comparison → sum (("<" | ">" | "<=" | ">=") sum)*
    sum        → product (("+" | "-") product)*
    product    → power (("*" | "/") power)*
    power      → unary ("^" unary)*
    unary      → ("!" | "-") unary | primary
    primary    → NUMBER | STRING | VOID | "(" equality ")" | "{" equality "}"

Every repetition is folded to the left. The relation says nothing about how a tree is found. -/

namespace ExprLang

namespace Grammar

/-- The two-sided operators of a level, from equality at zero to power at four. -/
def operators : Nat → List Symbol
  | 0 => [.doubleEquals, .exclamationEquals]
  | 1 => [.less, .greater, .lessEquals, .greaterEquals]
  | 2 => [.plus, .minus]
  | 3 => [.asterisk, .slash]
  | 4 => [.caret]
  | _ => []

def unaryOperators : List Symbol := [.exclamation, .minus]

def delimiters : List (Symbol × Symbol) := [(.leftParen, .rightParen), (.leftCurly, .rightCurly)]

end Grammar

/-- `Derives n ts e`: the tokens `ts` form the expression `e` of level `n`. Level five holds prefix
operators and level six literals and groups. -/
inductive Derives : Nat → List Token → Expr → Prop
  | binary {n : Nat} {s : Symbol} {pos : Position} {ls rs : List Token} {l r : Expr} :
    s ∈ Grammar.operators n → Derives n ls l → Derives (n + 1) rs r →
      Derives n (ls ++ .symbol s pos :: rs) (.binary s pos l r)
  | tighter {n : Nat} {ts : List Token} {e : Expr} : n < 6 → Derives (n + 1) ts e → Derives n ts e
  | unary {s : Symbol} {pos : Position} {ts : List Token} {e : Expr} :
    s ∈ Grammar.unaryOperators → Derives 5 ts e → Derives 5 (.symbol s pos :: ts) (.unary s pos e)
  | number {x : Binary64} {pos : Position} :
    Derives 6 [.literal (.number x) pos] (.literal (.number x) pos)
  | string {text : String} {pos : Position} :
    Derives 6 [.literal (.string text) pos] (.literal (.string text) pos)
  | void {pos : Position} : Derives 6 [.literal .void pos] (.literal .void pos)
  | group {opener closer : Symbol} {p q : Position} {ts : List Token} {e : Expr} :
    (opener, closer) ∈ Grammar.delimiters → Derives 0 ts e →
      Derives 6 (.symbol opener p :: (ts ++ [.symbol closer q])) (.grouping e)

end ExprLang
