import ExprLang.Number.Printed
import Mathlib.Algebra.Group.Nat.Defs

/-! # Whole numbers and their digits

A finite number is a whole number of units, and rounding that many units gives the number back. A
whole number is therefore the one that its own digits denote, however many there are: printing it
and reading the digits loses nothing. -/

namespace ExprLang

namespace Binary64

theorem isFinite_iff {x : Binary64} : x.isFinite = true ↔ x.magnitude < infiniteMagnitude :=
  decide_eq_true_iff

theorem isNaN_of_isFinite {x : Binary64} (hfinite : x.isFinite = true) : x.isNaN = false := by
  have hlt := isFinite_iff.1 hfinite
  simp only [isNaN, decide_eq_false_iff_not]
  omega

theorem isInfinite_of_isFinite {x : Binary64} (hfinite : x.isFinite = true) :
    x.isInfinite = false := by
  have hlt := isFinite_iff.1 hfinite
  simp only [isInfinite, beq_eq_false_iff_ne]
  omega

/-! ### Rounding a number of units -/

theorem divNearest_mul (q : Nat) {d : Nat} (hd : 0 < d) : divNearest (q * d) d = q := by
  have hquotient : q * d / d = q := Nat.mul_div_cancel q hd
  have hremainder : q * d % d = 0 := Nat.mul_mod_left q d
  simp only [divNearest, hquotient, hremainder]
  rw [if_pos]
  omega

/-- A significand of fifty-three bits, scaled, is as many units as the exponent field says. -/
theorem nearestMagnitude_scaled {significand : Nat} (hlow : 2 ^ 52 ≤ significand)
    (hhigh : significand < 2 ^ 53) (shift : Nat) :
    nearestMagnitude (significand * 2 ^ shift) 1 = shift * 2 ^ 52 + significand := by
  have hpow : 0 < 2 ^ shift := Nat.two_pow_pos shift
  have hlog : (significand * 2 ^ shift).log2 = 52 + shift := by
    have hpos : 0 < significand * 2 ^ shift := Nat.mul_pos (by omega) hpow
    rw [Nat.log2_eq_iff (by omega)]
    constructor
    · rw [Nat.pow_add]
      exact Nat.mul_le_mul_right _ hlow
    · rw [show 52 + shift + 1 = 53 + shift by omega, Nat.pow_add]
      exact Nat.mul_lt_mul_of_pos_right hhigh hpow
  simp only [nearestMagnitude, Nat.div_one, hlog, Nat.add_sub_cancel_left, Nat.one_mul, Nat.pow_eq]
  rw [divNearest_mul significand hpow]

theorem nearestMagnitude_small {units : Nat} (h : units < 2 ^ 52) :
    nearestMagnitude units 1 = units := by
  have hshift : units.log2 - 52 = 0 := by
    by_cases hzero : units = 0
    · rw [hzero, Nat.log2_zero]
    · have hlog : units.log2 < 52 := (Nat.log2_lt hzero).2 h
      omega
  have hdiv : divNearest (units * 1) 1 = units := divNearest_mul units Nat.one_pos
  simpa [nearestMagnitude, hshift] using hdiv

theorem nearestMagnitude_unitsOf (magnitude : Nat) :
    nearestMagnitude (unitsOf magnitude) 1 = magnitude := by
  simp only [unitsOf, Nat.pow_eq]
  have hfraction : magnitude % 2 ^ 52 < 2 ^ 52 := Nat.mod_lt _ (by decide)
  -- without an exponent the fraction is all there is; otherwise the hidden bit stands before it
  by_cases hsmall : magnitude < 2 ^ 52
  · have hexponent : magnitude / 2 ^ 52 = 0 := Nat.div_eq_of_lt hsmall
    have hunits : magnitude % 2 ^ 52 = magnitude := Nat.mod_eq_of_lt hsmall
    rw [if_pos hsmall, hexponent, hunits]
    simpa using nearestMagnitude_small hsmall
  · have hexponent : 1 ≤ magnitude / 2 ^ 52 := by omega
    rw [if_neg hsmall, nearestMagnitude_scaled (by omega) (by omega)]
    omega

theorem nearest_units {x : Binary64} (hfinite : x.isFinite = true) :
    nearest x.negative x.units 1 = x := by
  have hmagnitude : min x.magnitude infiniteMagnitude = x.magnitude := by
    have hlt := isFinite_iff.1 hfinite
    omega
  cases x
  simpa [nearest, saturated, units, nearestMagnitude_unitsOf] using hmagnitude

/-! ### Printing and reading -/

theorem ofNat_units_div {x : Binary64} (hfinite : x.isFinite = true) (hwhole : x.isWhole = true)
    (hsign : x.negative = false) : ofNat (x.units / unitsPerOne) = x := by
  have hunits : x.units / unitsPerOne * unitsPerOne = x.units := by
    apply Nat.div_mul_cancel
    apply Nat.dvd_of_mod_eq_zero
    simpa [isWhole] using hwhole
  have hnearest := nearest_units hfinite
  rw [hsign] at hnearest
  rw [ofNat, hunits, hnearest]

theorem print_of_isWhole {x : Binary64} (hfinite : x.isFinite = true) (hwhole : x.isWhole = true) :
    x.print = String.ofList (x.signed (Decimal.toDigits (x.units / unitsPerOne))) := by
  simp [print, isNaN_of_isFinite hfinite, isInfinite_of_isFinite hfinite, hwhole]

end Binary64

namespace Decimal

theorem isDigit_of_mem_toDigits {n : Nat} {c : Char} (h : c ∈ toDigits n) : isDigit c = true :=
  Nat.isDigit_of_mem_toDigits (by decide) (by decide) h

theorem toDigits_ne_nil (n : Nat) : toDigits n ≠ [] := Nat.toDigits_ne_nil

theorem ofDigits_toDigits (n : Nat) : ofDigits (toDigits n) = n := Nat.ofDigitChars_ten_toDigits

end Decimal

end ExprLang
