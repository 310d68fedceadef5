import ExprLang.Expr.Basic
import ExprLang.Typed.Value

/-! # Typing

The types of expressions as a relation, rule by rule and apart from the tables of operators. -/

namespace ExprLang

namespace Typing

/-- The operators from two numbers to a number. -/
def arithmetic : List Symbol := [.plus, .minus, .asterisk, .slash, .caret]

/-- The operators that compare two numbers by size. -/
def comparison : List Symbol := [.less, .greater, .lessEquals, .greaterEquals]

/-- The operators that compare two numbers or two booleans. -/
def equality : List Symbol := [.doubleEquals, .exclamationEquals]

end Typing

inductive HasType : Expr → DataType → Prop
  | number {x : Binary64} {pos : Position} : HasType (.literal (.number x) pos) .number
  | string {text : String} {pos : Position} : HasType (.literal (.string text) pos) .string
  | identifier {name : String} {pos : Position} :
    HasType (.literal (.identifier name) pos) .string
  | void {pos : Position} : HasType (.literal .void pos) .void
  | grouping {e : Expr} {t : DataType} : HasType e t → HasType (.grouping e) t
  | negation {pos : Position} {e : Expr} : HasType e .number → HasType (.unary .minus pos e) .number
  | logicalNot {pos : Position} {e : Expr} :
    HasType e .boolean → HasType (.unary .exclamation pos e) .boolean
  | arithmetic {s : Symbol} {pos : Position} {l r : Expr} :
    s ∈ Typing.arithmetic → HasType l .number → HasType r .number →
      HasType (.binary s pos l r) .number
  | comparison {s : Symbol} {pos : Position} {l r : Expr} :
    s ∈ Typing.comparison → HasType l .number → HasType r .number →
      HasType (.binary s pos l r) .boolean
  | numberEquality {s : Symbol} {pos : Position} {l r : Expr} :
    s ∈ Typing.equality → HasType l .number → HasType r .number →
      HasType (.binary s pos l r) .boolean
  | booleanEquality {s : Symbol} {pos : Position} {l r : Expr} :
    s ∈ Typing.equality → HasType l .boolean → HasType r .boolean →
      HasType (.binary s pos l r) .boolean
  | concatenation {pos : Position} {l r : Expr} :
    HasType l .string → HasType r .string → HasType (.binary .plus pos l r) .string

end ExprLang
