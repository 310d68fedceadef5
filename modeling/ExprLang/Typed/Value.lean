import ExprLang.Token.Basic

/-! # Values and their types -/

namespace ExprLang

inductive DataType where
  | number
  | string
  | boolean
  | void
deriving DecidableEq, Repr

namespace DataType

def name : DataType → String
  | number => "number"
  | string => "string"
  | boolean => "boolean"
  | void => "void"

def all : List DataType := [number, string, boolean, void]

end DataType

inductive Value where
  | number (value : Binary64)
  | string (text : String)
  | boolean (flag : Bool)
  | void
deriving DecidableEq, Repr

namespace Value

def type : Value → DataType
  | number _ => .number
  | string _ => .string
  | boolean _ => .boolean
  | void => .void

/-- The printed value; a string stands as it is. -/
def print : Value → String
  | number value => value.print
  | string text => text
  | boolean flag => if flag then "true" else "false"
  | void => "()"

end Value

/-- The value of a literal; an identifier stands for its own name. -/
def Literal.value : Literal → Value
  | identifier name => .string name
  | string text => .string text
  | number value => .number value
  | void => .void

end ExprLang
