import ExprLang.Number.Decimal

/-! # Shortest decimals

The shortest decimal of a number is the one with the fewest significant digits that reads back to
it; of two with equally many digits it is the nearer one, and of two equally near the even one. For
each count of digits only the two neighbours of the value on that decimal grid have to be tried. -/

namespace ExprLang.Binary64

def digitCount (n : Nat) : Nat := (Decimal.toDigits n).length

/-- The decimal exponent of the leading digit of a positive number of units. -/
def leadingExponent (units : Nat) : Int :=
  if unitsPerOne ≤ units then (digitCount (units / unitsPerOne) : Int) - 1
  else -(digitCount ((unitsPerOne - 1) / units) : Int)

/-- Numerator and denominator of a number of units divided by a power of ten. -/
def scaledUnits (units : Nat) : Int → Nat × Nat
  | .ofNat k => (units, unitsPerOne * Nat.pow 10 k)
  | .negSucc k => (units * Nat.pow 10 (k + 1), unitsPerOne)

/-- The nearer of those neighbours with `n` significant digits that read back to the number. -/
def shortestWith? (x : Binary64) (n : Nat) : Option Decimal :=
  let exponent := leadingExponent x.units + 1 - n
  let (num, den) := scaledUnits x.units exponent
  let below : Decimal := ⟨num / den, exponent⟩
  let above : Decimal := ⟨num / den + 1, exponent⟩
  match below.toBinary64 x.negative == x, above.toBinary64 x.negative == x with
  | true, true => some ⟨divNearest num den, exponent⟩
  | true, false => some below
  | false, true => some above
  | false, false => none

/-- All digits of a finite number: a unit is `5^1074 / 10^1074`. -/
def exactDecimal (x : Binary64) : Decimal := ⟨x.units * Nat.pow 5 1074, -1074⟩

/-- The shortest decimal that reads back to a positive or negative finite number. Seventeen digits
are always enough. -/
def shortest (x : Binary64) : Decimal :=
  ((List.range 17).findSome? fun i => x.shortestWith? (i + 1)).getD x.exactDecimal

end ExprLang.Binary64
