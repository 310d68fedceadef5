import ExprLang.Number.Binary64

/-! # Decimal numerals

A decimal is a whole number of digits and a power of ten. Reading a numeral never rounds; only
`Decimal.toBinary64` does, once, to the nearest number. -/

namespace ExprLang

/-- The exact decimal `digits * 10 ^ exponent`. -/
structure Decimal where
  digits : Nat
  exponent : Int
deriving DecidableEq, Repr

namespace Decimal

/-! ### Digits -/

def isDigit (c : Char) : Bool := '0' ≤ c && c ≤ '9'

def digitValue (c : Char) : Nat := c.toNat - '0'.toNat

def ofDigits (cs : List Char) : Nat := cs.foldl (fun n c => 10 * n + digitValue c) 0

/-- The digits of a natural number, with no leading zero. -/
def toDigits (n : Nat) : List Char := Nat.toDigits 10 n

/-! ### Rounding -/

def toBinary64 (negative : Bool) (d : Decimal) : Binary64 :=
  match d.exponent with
  | .ofNat k => Binary64.nearest negative (d.digits * Nat.pow 10 k * Binary64.unitsPerOne) 1
  | .negSucc k => Binary64.nearest negative (d.digits * Binary64.unitsPerOne) (Nat.pow 10 (k + 1))

/-! ### Reading -/

/-- An optional sign; the flag tells a minus. -/
def splitSign : List Char → Bool × List Char
  | '-' :: cs => (true, cs)
  | '+' :: cs => (false, cs)
  | cs => (false, cs)

/-- A decimal point and the digits after it, if the text goes on with a point. -/
def splitFraction : List Char → List Char × List Char
  | '.' :: cs => (cs.takeWhile isDigit, cs.dropWhile isDigit)
  | cs => ([], cs)

/-- The exponent part, which has to reach the end of the text; an empty one is zero. -/
def readExponent? : List Char → Option Int
  | [] => some 0
  | c :: cs =>
    let (negative, digits) := splitSign cs
    if (c = 'e' || c = 'E') && !digits.isEmpty && digits.all isDigit then
      some (if negative then -(ofDigits digits : Int) else ofDigits digits)
    else none

/-- A whole text as a signed decimal: digits with an optional point among them, of which there has to
be at least one, then an optional exponent. -/
def read? (cs : List Char) : Option (Bool × Decimal) :=
  let (negative, body) := splitSign cs
  let whole := body.takeWhile isDigit
  let (fraction, rest) := splitFraction (body.dropWhile isDigit)
  if whole.isEmpty && fraction.isEmpty then none
  else
    (readExponent? rest).map fun e => (negative, ⟨ofDigits (whole ++ fraction), e - fraction.length⟩)

end Decimal

end ExprLang
