import ExprLang.Expr.Basic
import ExprLang.Typed.Operators

/-! # Typed expressions

Binding an expression looks up the operator of every node by the types of its operands. Operands are
bound from left to right before their operator, and the first node without an operator stops. -/

namespace ExprLang

/-- An expression whose operators are known. -/
inductive Typed where
  | literal (value : Value)
  | unary (op : UnaryOperator) (pos : Position) (operand : Typed)
  | binary (op : BinaryOperator) (pos : Position) (left right : Typed)
  | grouping (operand : Typed)
deriving DecidableEq, Repr

namespace Typed

def type : Typed → DataType
  | literal value => value.type
  | unary op _ _ => op.result
  | binary op _ _ _ => op.result
  | grouping operand => operand.type

end Typed

namespace UnaryOperator

/-- The operator of a symbol at a type, or the diagnostic for having none. -/
def resolve (symbol : Symbol) (pos : Position) (operand : DataType) :
    Except Diagnostic UnaryOperator :=
  if isKnown symbol then
    match lookup? symbol operand with
    | some op => .ok op
    | none =>
      .error (.syntaxError pos ("cannot perform `" ++ symbol.text ++ "` on " ++ operand.name))
  else .error (.unknownOperator pos symbol.text)

end UnaryOperator

namespace BinaryOperator

/-- Two types in a message: a type that stands on both sides is named once. -/
def operandNames (left right : DataType) : String :=
  if left = right then left.name else left.name ++ " and " ++ right.name

/-- The operator of a symbol between two types, or the diagnostic for having none. -/
def resolve (symbol : Symbol) (pos : Position) (left right : DataType) :
    Except Diagnostic BinaryOperator :=
  if isKnown symbol then
    match lookup? symbol left right with
    | some op => .ok op
    | none =>
      .error (.syntaxError pos
        ("cannot perform `" ++ symbol.text ++ "` on " ++ operandNames left right))
  else .error (.unknownOperator pos symbol.text)

end BinaryOperator

def Expr.bind : Expr → Except Diagnostic Typed
  | literal l _ => .ok (.literal l.value)
  | unary symbol pos operand => do
    let operand ← operand.bind
    let op ← UnaryOperator.resolve symbol pos operand.type
    return .unary op pos operand
  | binary symbol pos left right => do
    let left ← left.bind
    let right ← right.bind
    let op ← BinaryOperator.resolve symbol pos left.type right.type
    return .binary op pos left right
  | grouping operand => do
    let operand ← operand.bind
    return .grouping operand

end ExprLang
