import ExprLang.Typed.Value

/-! # Typed operators

The tables say which operation a symbol stands for on operands of given types, and what type its
result has. A symbol that stands in no row of its table is no operator at all. -/

namespace ExprLang

inductive UnaryOperation where
  | negation
  | logicalNot
deriving DecidableEq, Repr

inductive BinaryOperation where
  | addition
  | concatenation
  | subtraction
  | multiplication
  | division
  | exponentiation
  | lessThan
  | greaterThan
  | lessThanEquals
  | greaterThanEquals
  | equals
  | notEquals
deriving DecidableEq, Repr

/-- A row of the table of prefix operators. -/
structure UnaryOperator where
  operation : UnaryOperation
  symbol : Symbol
  operand : DataType
  result : DataType
deriving DecidableEq, Repr

/-- A row of the table of two-sided operators. -/
structure BinaryOperator where
  operation : BinaryOperation
  symbol : Symbol
  left : DataType
  right : DataType
  result : DataType
deriving DecidableEq, Repr

namespace UnaryOperator

def table : List UnaryOperator :=
  [⟨.negation, .minus, .number, .number⟩,
    ⟨.logicalNot, .exclamation, .boolean, .boolean⟩]

def isKnown (symbol : Symbol) : Bool := table.any (·.symbol = symbol)

def lookup? (symbol : Symbol) (operand : DataType) : Option UnaryOperator :=
  table.find? fun op => op.symbol = symbol && op.operand = operand

end UnaryOperator

namespace BinaryOperator

def table : List BinaryOperator :=
  [⟨.addition, .plus, .number, .number, .number⟩,
    ⟨.subtraction, .minus, .number, .number, .number⟩,
    ⟨.multiplication, .asterisk, .number, .number, .number⟩,
    ⟨.division, .slash, .number, .number, .number⟩,
    ⟨.exponentiation, .caret, .number, .number, .number⟩,
    ⟨.lessThan, .less, .number, .number, .boolean⟩,
    ⟨.greaterThan, .greater, .number, .number, .boolean⟩,
    ⟨.lessThanEquals, .lessEquals, .number, .number, .boolean⟩,
    ⟨.greaterThanEquals, .greaterEquals, .number, .number, .boolean⟩,
    ⟨.equals, .doubleEquals, .number, .number, .boolean⟩,
    ⟨.notEquals, .exclamationEquals, .number, .number, .boolean⟩,
    ⟨.concatenation, .plus, .string, .string, .string⟩,
    ⟨.equals, .doubleEquals, .boolean, .boolean, .boolean⟩,
    ⟨.notEquals, .exclamationEquals, .boolean, .boolean, .boolean⟩]

def isKnown (symbol : Symbol) : Bool := table.any (·.symbol = symbol)

def lookup? (symbol : Symbol) (left right : DataType) : Option BinaryOperator :=
  table.find? fun op => op.symbol = symbol && op.left = left && op.right = right

end BinaryOperator

end ExprLang
