import ExprLang.Number.Shortest

/-! # Printed numbers

How numbers look in output and in messages. A whole number is printed with all its digits and
nothing else; any other finite number by its shortest decimal, with a point for exponents from -4 to
15 and with an exponent of at least two digits beyond. -/

namespace ExprLang.Decimal

/-! ### Layout of a decimal -/

def zeros (n : Nat) : List Char := List.replicate n '0'

def dropTrailingZeros (cs : List Char) : List Char :=
  (cs.reverse.dropWhile (· = '0')).reverse

/-- Digits with a point before the digit of index `point`; a whole number ends in `.0`. -/
def positional (digits : List Char) : Int → List Char
  | .ofNat 0 => '0' :: '.' :: digits
  | .ofNat point =>
    if point < digits.length then digits.take point ++ '.' :: digits.drop point
    else digits ++ zeros (point - digits.length) ++ ['.', '0']
  | .negSucc k => '0' :: '.' :: (zeros (k + 1) ++ digits)

/-- An exponent with its sign and at least two digits. -/
def exponentText (e : Int) : List Char :=
  let digits := toDigits e.natAbs
  (if e < 0 then '-' else '+') :: (zeros (2 - digits.length) ++ digits)

/-- One digit, the others after a point if there are any, and the exponent of the first. -/
def scientific (digits : List Char) (exponent : Int) : List Char :=
  match digits with
  | [] => []
  | [d] => d :: 'e' :: exponentText exponent
  | d :: ds => d :: '.' :: (ds ++ 'e' :: exponentText exponent)

/-- A positive decimal in the notation that its exponent asks for. -/
def layout (d : Decimal) : List Char :=
  let all := toDigits d.digits
  let digits := dropTrailingZeros all
  let exponent := all.length + d.exponent - 1
  if -4 ≤ exponent ∧ exponent ≤ 15 then positional digits (exponent + 1)
  else scientific digits exponent

end ExprLang.Decimal

namespace ExprLang.Binary64

/-! ### Text of a number -/

/-- A minus before the text of a negative number, also of negative zero. -/
def signed (x : Binary64) (text : List Char) : List Char :=
  if x.negative then '-' :: text else text

def isWhole (x : Binary64) : Bool := x.units % unitsPerOne == 0

def print (x : Binary64) : String :=
  if x.isNaN then "NaN"
  else if x.isInfinite then String.ofList (x.signed "inf".toList)
  else if x.isWhole then String.ofList (x.signed (Decimal.toDigits (x.units / unitsPerOne)))
  else String.ofList (x.signed x.shortest.layout)

/-- The form of a number that shows it is no integer: a whole number keeps a zero after its point. -/
def printPointed (x : Binary64) : String :=
  if x.isNaN then "nan"
  else if x.isInfinite then String.ofList (x.signed "inf".toList)
  else if x.isZero then String.ofList (x.signed "0.0".toList)
  else String.ofList (x.signed x.shortest.layout)

/-! ### Reading a printed number -/

/-- The number that a printed text denotes: an infinity, or the number nearest to a decimal. -/
def read? (text : String) : Option Binary64 :=
  if text = "inf" then some (infinity false)
  else if text = "-inf" then some (infinity true)
  else (Decimal.read? text.toList).map fun (negative, d) => d.toBinary64 negative

end ExprLang.Binary64
