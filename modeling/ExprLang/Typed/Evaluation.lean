import ExprLang.Typed.Basic

/-! # Evaluation

Operands are evaluated from left to right, both before their operator. Arithmetic on finite numbers
never gives an infinity silently: it overflows instead. The one exception is a negative power of
zero, which is infinite. -/

namespace ExprLang

inductive OperationFault where
  | divisionByZero
  | overflow
  /-- The operands are not of the types that the operation is for. -/
  | unsupported
deriving DecidableEq, Repr

def OperationFault.diagnostic (symbol : Symbol) (pos : Position) : OperationFault → Diagnostic
  | divisionByZero => .syntaxError pos "cannot divide by zero"
  | overflow => .syntaxError pos ("numeric overflow in `" ++ symbol.text ++ "`")
  | unsupported => .unknownOperator pos symbol.text

/-! ### Arithmetic with overflow -/

/-- The result of an operation on two numbers, unless it is infinite and they are not. -/
def Binary64.checked (x y result : Binary64) : Except OperationFault Binary64 :=
  if result.isInfinite && x.isFinite && y.isFinite then .error .overflow else .ok result

def Binary64.quotient (x y : Binary64) : Except OperationFault Binary64 :=
  if y.isZero then .error .divisionByZero else checked x y (x.div y)

/-- A power. A negative power of zero is plus infinity, whatever the sign of the zero. -/
def Binary64.power (x y : Binary64) : Except OperationFault Binary64 :=
  let result := x.pow y
  if result.isInfinite && x.isZero && y.isFinite then .ok (infinity false)
  else checked x y result

/-! ### Operations on values -/

def UnaryOperation.apply : UnaryOperation → Value → Except OperationFault Value
  | negation, .number x => .ok (.number x.neg)
  | logicalNot, .boolean a => .ok (.boolean !a)
  | _, _ => .error .unsupported

def BinaryOperation.apply : BinaryOperation → Value → Value → Except OperationFault Value
  | addition, .number x, .number y => (x.checked y (x.add y)).map .number
  | subtraction, .number x, .number y => (x.checked y (x.sub y)).map .number
  | multiplication, .number x, .number y => (x.checked y (x.mul y)).map .number
  | division, .number x, .number y => (x.quotient y).map .number
  | exponentiation, .number x, .number y => (x.power y).map .number
  | lessThan, .number x, .number y => .ok (.boolean (x.lt y))
  | greaterThan, .number x, .number y => .ok (.boolean (y.lt x))
  | lessThanEquals, .number x, .number y => .ok (.boolean (x.le y))
  | greaterThanEquals, .number x, .number y => .ok (.boolean (y.le x))
  | equals, .number x, .number y => .ok (.boolean (x.eq y))
  | notEquals, .number x, .number y => .ok (.boolean !(x.eq y))
  | equals, .boolean a, .boolean b => .ok (.boolean (a == b))
  | notEquals, .boolean a, .boolean b => .ok (.boolean (a != b))
  | concatenation, .string s, .string t => .ok (.string (s ++ t))
  | _, _, _ => .error .unsupported

/-! ### Expressions -/

def Typed.evaluate : Typed → Except Diagnostic Value
  | literal value => .ok value
  | unary op pos operand => do
    let a ← operand.evaluate
    (op.operation.apply a).mapError (·.diagnostic op.symbol pos)
  | binary op pos left right => do
    let a ← left.evaluate
    let b ← right.evaluate
    (op.operation.apply a b).mapError (·.diagnostic op.symbol pos)
  | grouping operand => operand.evaluate

/-- The value of an expression. All of it is bound first, so a type error anywhere wins over a fault
of an operation. -/
def Expr.evaluate (e : Expr) : Except Diagnostic Value := do
  let typed ← e.bind
  typed.evaluate

/-! ### Direct evaluation

A one-pass evaluator without binding: it walks an expression from left to right, evaluates the
operands of an operator, and only then asks what the operator means for the values at hand. It stops
at the first fault that it meets, be it a type error or a fault of an operation. -/

def Expr.evaluateDirectly : Expr → Except Diagnostic Value
  | literal l _ => .ok l.value
  | unary symbol pos operand => do
    let a ← operand.evaluateDirectly
    let op ← UnaryOperator.resolve symbol pos a.type
    (op.operation.apply a).mapError (·.diagnostic symbol pos)
  | binary symbol pos left right => do
    let a ← left.evaluateDirectly
    let b ← right.evaluateDirectly
    let op ← BinaryOperator.resolve symbol pos a.type b.type
    (op.operation.apply a b).mapError (·.diagnostic symbol pos)
  | grouping operand => operand.evaluateDirectly

end ExprLang
