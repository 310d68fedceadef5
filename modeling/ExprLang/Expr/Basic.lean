import ExprLang.Token.Basic

/-! # Expression trees

Literals, prefix and two-sided operators, and groups. Operators and literals keep the position of
their token. A tree has a compact form on one line and a dump with one line for each node. -/

namespace ExprLang

inductive Expr where
  | literal (literal : Literal) (pos : Position)
  | unary (op : Symbol) (pos : Position) (operand : Expr)
  | binary (op : Symbol) (pos : Position) (left right : Expr)
  | grouping (operand : Expr)
deriving DecidableEq, Repr

namespace Expr

/-- The literal that stands where an operand is missing. -/
def placeholder (pos : Position) : Expr := .literal .void pos

/-- The number of nodes on the longest path from the root. -/
def depth : Expr → Nat
  | literal _ _ => 1
  | unary _ _ operand => operand.depth + 1
  | binary _ _ left right => max left.depth right.depth + 1
  | grouping operand => operand.depth + 1

/-! ### Texts -/

def compact : Expr → String
  | literal l _ => "Literal(" ++ l.sourceText ++ ")"
  | unary op _ operand => "Unary(" ++ op.text ++ ", " ++ operand.compact ++ ")"
  | binary op _ left right =>
    "Binary(" ++ op.text ++ ", " ++ left.compact ++ ", " ++ right.compact ++ ")"
  | grouping operand => "Grouping(" ++ operand.compact ++ ")"

def spaces (n : Nat) : String := String.ofList (List.replicate n ' ')

/-- A line for each node, operands two columns further in than their operator. -/
def prettyLines (indent : Nat) : Expr → List String
  | literal l _ => [spaces indent ++ "Literal: " ++ l.sourceText]
  | unary op _ operand => (spaces indent ++ "Unary: " ++ op.text) :: operand.prettyLines (indent + 2)
  | binary op _ left right =>
    (spaces indent ++ "Binary: " ++ op.text) ::
      (left.prettyLines (indent + 2) ++ right.prettyLines (indent + 2))
  | grouping operand => (spaces indent ++ "Grouping") :: operand.prettyLines (indent + 2)

/-- The dump of a tree, each line ended by a newline. -/
def pretty (e : Expr) (indent : Nat) : String :=
  String.join ((e.prettyLines indent).map (· ++ "\n"))

/-! ### Nodes in order -/

/-- A node without its operands. -/
inductive Node where
  | literal (literal : Literal) (pos : Position)
  | unary (op : Symbol) (pos : Position)
  | binary (op : Symbol) (pos : Position)
  | grouping
deriving DecidableEq, Repr

/-- All nodes, each before its operands and the left operand before the right one. -/
def preorder : Expr → List Node
  | literal l pos => [.literal l pos]
  | unary op pos operand => .unary op pos :: operand.preorder
  | binary op pos left right => .binary op pos :: (left.preorder ++ right.preorder)
  | grouping operand => .grouping :: operand.preorder

/-- An expression and all the expressions inside it, each after its operands and the left operand
before the right one. -/
def parts : Expr → List Expr
  | literal l pos => [literal l pos]
  | unary op pos operand => operand.parts ++ [unary op pos operand]
  | binary op pos left right => left.parts ++ (right.parts ++ [binary op pos left right])
  | grouping operand => operand.parts ++ [grouping operand]

def node : Expr → Node
  | literal l pos => .literal l pos
  | unary op pos _ => .unary op pos
  | binary op pos _ _ => .binary op pos
  | grouping _ => .grouping

def postorder (e : Expr) : List Node := e.parts.map node

end Expr

end ExprLang
