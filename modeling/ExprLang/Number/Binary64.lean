/-! # Binary64 numbers

A number of the language is a binary64 pattern: a sign and sixty-three bits of magnitude. Read as
one natural number, the magnitude grows with the value, so rounding and comparing need no separate
exponent. Every finite magnitude is a whole number of *units* of the least positive value, `2^-1074`;
sums, products and quotients are therefore exact fractions of natural numbers, rounded once at the
end to the nearest pattern, a tie going to the even one. -/

namespace ExprLang

/-- A binary64 number. The magnitude holds the exponent and fraction fields as one number. -/
structure Binary64 where
  negative : Bool
  magnitude : Nat
  magnitude_lt : magnitude < Nat.pow 2 63
deriving DecidableEq, Repr

namespace Binary64

/-! ### Patterns -/

/-- The magnitude of the infinities. Smaller ones are finite numbers, larger ones are NaNs. -/
def infiniteMagnitude : Nat := 2047 * Nat.pow 2 52

def unitsPerOne : Nat := Nat.pow 2 1074

/-- The number with a given sign and magnitude; magnitudes past the infinities become infinite. -/
def saturated (negative : Bool) (magnitude : Nat) : Binary64 where
  negative := negative
  magnitude := min magnitude infiniteMagnitude
  magnitude_lt := Nat.lt_of_le_of_lt (Nat.min_le_right _ _) (by decide)

def zero (negative : Bool) : Binary64 := saturated negative 0

def infinity (negative : Bool) : Binary64 := saturated negative infiniteMagnitude

/-- One NaN stands for all: no two of them differ in anything the language shows. -/
def nan : Binary64 := ⟨false, infiniteMagnitude + Nat.pow 2 51, by decide⟩

def ofBits (bits : UInt64) : Binary64 where
  negative := decide (Nat.pow 2 63 ≤ bits.toNat)
  magnitude := bits.toNat % Nat.pow 2 63
  magnitude_lt := Nat.mod_lt _ (by decide)

def toBits (x : Binary64) : UInt64 :=
  UInt64.ofNat ((if x.negative then Nat.pow 2 63 else 0) + x.magnitude)

def isNaN (x : Binary64) : Bool := infiniteMagnitude < x.magnitude

def isInfinite (x : Binary64) : Bool := x.magnitude == infiniteMagnitude

def isFinite (x : Binary64) : Bool := x.magnitude < infiniteMagnitude

def isZero (x : Binary64) : Bool := x.magnitude == 0

/-! ### Finite values and rounding -/

/-- How many units the number of a finite magnitude is: the fraction field, with the hidden bit when
the exponent field is not zero, scaled by the exponent field. -/
def unitsOf (magnitude : Nat) : Nat :=
  (magnitude % Nat.pow 2 52 + if magnitude < Nat.pow 2 52 then 0 else Nat.pow 2 52) *
    Nat.pow 2 (magnitude / Nat.pow 2 52 - 1)

def units (x : Binary64) : Nat := unitsOf x.magnitude

def signedUnits (x : Binary64) : Int :=
  if x.negative then -(x.units : Int) else x.units

/-- The quotient `n / d` rounded to the nearest natural number, a half to the even neighbour. -/
def divNearest (n d : Nat) : Nat :=
  let q := n / d
  let r := n % d
  if 2 * r < d then q else if d < 2 * r then q + 1 else q + q % 2

/-- The magnitude nearest to `n / d` units. The shift leaves a quotient of at most fifty-three bits;
a quotient that rounds up to `2^53` carries into the next exponent by itself. -/
def nearestMagnitude (n d : Nat) : Nat :=
  let shift := (n / d).log2 - 52
  shift * Nat.pow 2 52 + divNearest n (d * Nat.pow 2 shift)

/-- The number nearest to `n / d` units with the given sign, or that infinity past the range. -/
def nearest (negative : Bool) (n d : Nat) : Binary64 := saturated negative (nearestMagnitude n d)

def ofNat (n : Nat) : Binary64 := nearest false (n * unitsPerOne) 1

/-! ### Arithmetic -/

def neg (x : Binary64) : Binary64 := { x with negative := !x.negative }

def add (x y : Binary64) : Binary64 :=
  if x.isNaN || y.isNaN then nan
  else if x.isInfinite then
    if y.isInfinite && x.negative != y.negative then nan else x
  else if y.isInfinite then y
  else
    let sum := x.signedUnits + y.signedUnits
    if sum = 0 then zero (x.negative && y.negative) else nearest (sum < 0) sum.natAbs 1

def sub (x y : Binary64) : Binary64 := x.add y.neg

def mul (x y : Binary64) : Binary64 :=
  let negative := x.negative != y.negative
  if x.isNaN || y.isNaN then nan
  else if x.isInfinite || y.isInfinite then
    if x.isZero || y.isZero then nan else infinity negative
  else nearest negative (x.units * y.units) unitsPerOne

def div (x y : Binary64) : Binary64 :=
  let negative := x.negative != y.negative
  if x.isNaN || y.isNaN then nan
  else if x.isInfinite then
    if y.isInfinite then nan else infinity negative
  else if y.isInfinite then zero negative
  else if y.isZero then
    if x.isZero then nan else infinity negative
  else nearest negative (x.units * unitsPerOne) y.units

/-! ### Order -/

/-- A key that orders all numbers but the NaNs; both zeros have the same key. -/
def key (x : Binary64) : Int :=
  if x.negative then -(x.magnitude : Int) else x.magnitude

def eq (x y : Binary64) : Bool := !x.isNaN && !y.isNaN && x.key == y.key

def lt (x y : Binary64) : Bool := !x.isNaN && !y.isNaN && x.key < y.key

def le (x y : Binary64) : Bool := !x.isNaN && !y.isNaN && x.key ≤ y.key

/-! ### Powers -/

def isOdd (x : Binary64) : Bool :=
  x.units % unitsPerOne == 0 && x.units / unitsPerOne % 2 == 1

/-- Finite powers of zero: one, a zero or an infinity, by whether the exponent is zero, positive or
negative. An odd exponent keeps the sign of the base. -/
def zeroPow (x y : Binary64) : Binary64 :=
  let negative := x.negative && y.isOdd
  if y.isZero then ofNat 1
  else if y.negative then infinity negative
  else zero negative

/-- The power of two finite numbers, the base not zero, as the platform's `pow` gives it. -/
def finitePow (x y : Binary64) : Binary64 :=
  ofBits (Float.pow (Float.ofBits x.toBits) (Float.ofBits y.toBits)).toBits

/-- Powers with an operand that is not finite. Every number to the zeroth power and every power of
one is one, also with a NaN; a NaN stays a NaN otherwise. An infinite exponent looks only at whether
the base is inside or outside the unit interval, an infinite base at the exponent's sign and at
whether it is odd. -/
def limitPow (x y : Binary64) : Binary64 :=
  let one := ofNat 1
  if y.isZero || x == one then one
  else if x.isNaN || y.isNaN then nan
  else if y.isInfinite then
    if x.magnitude == one.magnitude then one
    else if (one.magnitude < x.magnitude) != y.negative then infinity false
    else zero false
  else
    let negative := x.negative && y.isOdd
    if y.negative then zero negative else infinity negative

def pow (x y : Binary64) : Binary64 :=
  if x.isFinite && y.isFinite then
    if x.isZero then zeroPow x y else finitePow x y
  else limitPow x y

end Binary64

end ExprLang
