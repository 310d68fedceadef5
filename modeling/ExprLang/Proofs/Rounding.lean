import ExprLang.Proofs.WholeNumbers
import Mathlib.Algebra.Order.Field.Basic
import Mathlib.Algebra.Order.Field.Rat
import Mathlib.Algebra.Order.Group.Int
import Mathlib.Order.Monotone.Basic
import Mathlib.Tactic.FieldSimp
import Mathlib.Tactic.Linarith

/-! # Rounding to the nearest number

The units of a magnitude grow with it, and twice as fast from each exponent to the next. Dividing by
the step between magnitudes, to the nearest, therefore finds the nearest magnitude of all, also where
the quotient rounds up into the next exponent. A quotient within the range rounds to the one number
that is nearest to it, or to the one of two with an even last bit; the range ends half a step above the
greatest finite number. -/

namespace ExprLang

namespace Binary64

/-! ### Magnitudes and their units -/

theorem unitsOf_scaled {shift significand : Nat} (hlow : 2 ^ 52 ≤ significand ∨ shift = 0)
    (hhigh : significand ≤ 2 ^ 53) :
    unitsOf (shift * 2 ^ 52 + significand) = significand * 2 ^ shift := by
  simp only [unitsOf, Nat.pow_eq]
  by_cases hsmall : significand < 2 ^ 52
  · obtain rfl : shift = 0 := by omega
    have hexponent : significand / 2 ^ 52 = 0 := Nat.div_eq_of_lt hsmall
    have hfraction : significand % 2 ^ 52 = significand := Nat.mod_eq_of_lt hsmall
    rw [Nat.zero_mul, Nat.zero_add, hexponent, hfraction, if_pos hsmall, Nat.add_zero]
  · have hlarge : ¬ shift * 2 ^ 52 + significand < 2 ^ 52 := by omega
    rw [if_neg hlarge]
    by_cases hcarry : significand = 2 ^ 53
    · have hexponent : (shift * 2 ^ 52 + significand) / 2 ^ 52 - 1 = shift + 1 := by omega
      have hfraction : (shift * 2 ^ 52 + significand) % 2 ^ 52 = 0 := by omega
      rw [hexponent, hfraction, hcarry, Nat.pow_succ]
      omega
    · have hexponent : (shift * 2 ^ 52 + significand) / 2 ^ 52 - 1 = shift := by omega
      have hfraction : (shift * 2 ^ 52 + significand) % 2 ^ 52 + 2 ^ 52 = significand := by omega
      rw [hexponent, hfraction]

theorem exists_scaled (magnitude : Nat) :
    ∃ shift significand, magnitude = shift * 2 ^ 52 + significand ∧
      (2 ^ 52 ≤ significand ∨ shift = 0) ∧ significand < 2 ^ 53 := by
  refine ⟨magnitude / 2 ^ 52 - 1, magnitude - (magnitude / 2 ^ 52 - 1) * 2 ^ 52, ?_, ?_, ?_⟩
  · omega
  · omega
  · omega

theorem unitsOf_lt_succ (magnitude : Nat) : unitsOf magnitude < unitsOf (magnitude + 1) := by
  obtain ⟨shift, significand, rfl, hlow, hhigh⟩ := exists_scaled magnitude
  have hnext : 2 ^ 52 ≤ significand + 1 ∨ shift = 0 := by omega
  rw [Nat.add_assoc, unitsOf_scaled hlow (by omega), unitsOf_scaled hnext (by omega)]
  exact Nat.mul_lt_mul_of_pos_right (Nat.lt_succ_self significand) (Nat.two_pow_pos shift)

theorem unitsOf_strictMono : StrictMono unitsOf := strictMono_nat_of_lt_succ unitsOf_lt_succ

/-- The step to the next magnitude is at least as wide as the exponent field says. -/
theorem succ_mul_le_unitsOf {shift significand : Nat} (hlow : 2 ^ 52 ≤ significand ∨ shift = 0)
    (hhigh : significand ≤ 2 ^ 53) :
    (significand + 1) * 2 ^ shift ≤ unitsOf (shift * 2 ^ 52 + significand + 1) := by
  by_cases hcarry : significand = 2 ^ 53
  · have hnext : shift * 2 ^ 52 + significand + 1 = (shift + 1) * 2 ^ 52 + (2 ^ 52 + 1) := by omega
    have hdouble : 2 ^ (shift + 1) = 2 ^ shift * 2 := pow_succ 2 shift
    rw [hnext, unitsOf_scaled (by omega) (by omega), hcarry, hdouble]
    omega
  · rw [Nat.add_assoc, unitsOf_scaled (by omega) (by omega)]

/-! ### Dividing to the nearest -/

theorem divNearest_cases (n d : Nat) : divNearest n d = n / d ∨ divNearest n d = n / d + 1 := by
  simp only [divNearest]
  split
  · exact .inl rfl
  split
  · exact .inr rfl
  · omega

theorem divNearest_bounds (n : Nat) {d : Nat} (hd : 0 < d) :
    2 * n ≤ 2 * (divNearest n d * d) + d ∧ 2 * (divNearest n d * d) ≤ 2 * n + d := by
  have hdivision : n / d * d + n % d = n := Nat.div_add_mod' n d
  have hremainder : n % d < d := Nat.mod_lt n hd
  have hnext : (n / d + 1) * d = n / d * d + d := Nat.succ_mul _ _
  simp only [divNearest]
  split
  · omega
  split
  · omega
  · rcases Nat.mod_two_eq_zero_or_one (n / d) with heven | hodd
    · rw [heven, Nat.add_zero]
      omega
    · rw [hodd]
      omega

theorem divNearest_even_of_half {n d : Nat} (hd : 0 < d)
    (h : 2 * n = 2 * (divNearest n d * d) + d ∨ 2 * (divNearest n d * d) = 2 * n + d) :
    divNearest n d % 2 = 0 := by
  have hdivision : n / d * d + n % d = n := Nat.div_add_mod' n d
  have hremainder : n % d < d := Nat.mod_lt n hd
  have hnext : (n / d + 1) * d = n / d * d + d := Nat.succ_mul _ _
  simp only [divNearest] at h ⊢
  split at h
  · omega
  split at h
  · omega
  · next hbelow habove =>
    rw [if_neg hbelow, if_neg habove]
    omega

/-! ### The nearest magnitude -/

/-- How far the units of a magnitude are from `n / d`, in parts of `d`. -/
def distanceFrom (n d magnitude : Nat) : Nat := ((unitsOf magnitude * d : Nat) - (n : Int)).natAbs

/-- What rounding does: the quotient is divided by the step between magnitudes, to the nearest. -/
theorem nearestMagnitude_spec (n d : Nat) :
    ∃ shift, nearestMagnitude n d = shift * 2 ^ 52 + divNearest n (d * 2 ^ shift) ∧
      (2 ^ 52 ≤ n / (d * 2 ^ shift) ∨ shift = 0) ∧ n / (d * 2 ^ shift) < 2 ^ 53 := by
  refine ⟨(n / d).log2 - 52, rfl, ?_, ?_⟩
  · rw [← Nat.div_div_eq_div_mul]
    by_cases hlarge : 52 < (n / d).log2
    · left
      have hne : n / d ≠ 0 := by
        intro hzero
        rw [hzero, Nat.log2_zero] at hlarge
        omega
      have hlog : 2 ^ (n / d).log2 ≤ n / d := Nat.log2_self_le hne
      rw [Nat.le_div_iff_mul_le (Nat.two_pow_pos _), ← Nat.pow_add]
      rwa [show 52 + ((n / d).log2 - 52) = (n / d).log2 by omega]
    · right
      omega
  · rw [← Nat.div_div_eq_div_mul, Nat.div_lt_iff_lt_mul (Nat.two_pow_pos _), ← Nat.pow_add]
    have hlog : n / d < 2 ^ ((n / d).log2 + 1) := Nat.lt_log2_self
    exact Nat.lt_of_lt_of_le hlog (Nat.pow_le_pow_right (by decide) (by omega))

/-- No magnitude is nearer, and a rival that is as near leaves an even one. -/
theorem nearestMagnitude_nearest (n : Nat) {d : Nat} (hd : 0 < d) {m : Nat}
    (hm : m ≠ nearestMagnitude n d) :
    distanceFrom n d (nearestMagnitude n d) ≤ distanceFrom n d m ∧
      (distanceFrom n d (nearestMagnitude n d) = distanceFrom n d m →
        nearestMagnitude n d % 2 = 0) := by
  obtain ⟨shift, hnearest, hlow, hhigh⟩ := nearestMagnitude_spec n d
  have hstep : 0 < d * 2 ^ shift := Nat.mul_pos hd (Nat.two_pow_pos shift)
  have hcases := divNearest_cases n (d * 2 ^ shift)
  have hbounds := divNearest_bounds n hstep
  have heven := divNearest_even_of_half (n := n) hstep
  have hfloor : n / (d * 2 ^ shift) * (d * 2 ^ shift) ≤ n := Nat.div_mul_le_self _ _
  rw [hnearest] at hm ⊢
  generalize divNearest n (d * 2 ^ shift) = k at *
  generalize n / (d * 2 ^ shift) = floor at *
  have hunits : unitsOf (shift * 2 ^ 52 + k) * d = k * (d * 2 ^ shift) := by
    rw [unitsOf_scaled (by omega) (by omega), Nat.mul_assoc, Nat.mul_comm (2 ^ shift)]
  have hparity : (shift * 2 ^ 52 + k) % 2 = k % 2 := by omega
  rw [hparity, distanceFrom, distanceFrom, hunits]
  rcases Nat.lt_or_gt_of_ne hm with hless | hgreater
  · by_cases habove : k * (d * 2 ^ shift) ≤ n
    · have hbelow : unitsOf m * d < k * (d * 2 ^ shift) := by
        rw [← hunits]
        exact Nat.mul_lt_mul_of_pos_right (unitsOf_strictMono hless) hd
      omega
    -- the quotient was rounded up, so the magnitude below has the same exponent field
    · have hup : k = floor + 1 := by
        rcases hcases with rfl | rfl
        · exact absurd hfloor habove
        · rfl
      subst hup
      have hbelow : unitsOf m * d ≤ floor * (d * 2 ^ shift) := by
        have hmono := unitsOf_strictMono.monotone (show m ≤ shift * 2 ^ 52 + floor by omega)
        rw [unitsOf_scaled hlow (by omega)] at hmono
        rw [Nat.mul_comm d, ← Nat.mul_assoc]
        exact Nat.mul_le_mul_right d hmono
      have hnext : (floor + 1) * (d * 2 ^ shift) = floor * (d * 2 ^ shift) + d * 2 ^ shift :=
        Nat.succ_mul _ _
      omega
  · have habove : (k + 1) * (d * 2 ^ shift) ≤ unitsOf m * d := by
      have hmono := unitsOf_strictMono.monotone (show shift * 2 ^ 52 + k + 1 ≤ m by omega)
      have hwide := succ_mul_le_unitsOf (show 2 ^ 52 ≤ k ∨ shift = 0 by omega) (by omega)
      rw [Nat.mul_comm d, ← Nat.mul_assoc]
      exact Nat.mul_le_mul_right d (Nat.le_trans hwide hmono)
    rw [Nat.succ_mul] at habove
    omega

/-! ### The end of the range -/

/-- Half a step above the greatest finite number, in units. -/
def overflowUnits : Nat := (2 ^ 1024 - 2 ^ 970) * unitsPerOne

theorem unitsPerOne_eq : unitsPerOne = 2 ^ 1074 := by
  delta unitsPerOne
  -- the power itself is never evaluated
  generalize 1074 = k
  rfl

theorem two_mul_overflowUnits : 2 * overflowUnits = (2 ^ 54 - 1) * 2 ^ 2045 := by
  have hlimit : 2 ^ 1024 - 2 ^ 970 = (2 ^ 54 - 1) * 2 ^ 970 := by
    rw [Nat.sub_mul, Nat.one_mul, ← pow_add]
  have hunits : 2 ^ 970 * (unitsPerOne * 2) = 2 ^ 2045 := by
    rw [unitsPerOne_eq, ← pow_succ, ← pow_add]
  rw [overflowUnits, hlimit, ← hunits, Nat.mul_comm 2, Nat.mul_assoc, Nat.mul_assoc]

theorem unitsOf_infiniteMagnitude : unitsOf infiniteMagnitude = 2 ^ 53 * 2 ^ 2045 := by
  have hmagnitude : infiniteMagnitude = 2045 * 2 ^ 52 + 2 ^ 53 := by decide
  rw [hmagnitude, unitsOf_scaled (by decide) (by decide)]

theorem unitsOf_lastMagnitude :
    unitsOf (infiniteMagnitude - 1) = (2 ^ 53 - 1) * 2 ^ 2045 := by
  have hmagnitude : infiniteMagnitude - 1 = 2045 * 2 ^ 52 + (2 ^ 53 - 1) := by decide
  rw [hmagnitude, unitsOf_scaled (by decide) (by decide)]

/-- Overflow begins halfway between the last finite magnitude and the next one. -/
theorem two_mul_overflowUnits_mul (d : Nat) :
    2 * (overflowUnits * d) =
      unitsOf (infiniteMagnitude - 1) * d + unitsOf infiniteMagnitude * d := by
  have hsum : 2 ^ 54 - 1 = (2 ^ 53 - 1) + 2 ^ 53 := by decide
  rw [← Nat.mul_assoc, two_mul_overflowUnits, unitsOf_lastMagnitude, unitsOf_infiniteMagnitude,
    hsum, Nat.add_mul, Nat.add_mul]

theorem nearestMagnitude_lt_iff (n : Nat) {d : Nat} (hd : 0 < d) :
    nearestMagnitude n d < infiniteMagnitude ↔ n < overflowUnits * d := by
  have hhalfway := two_mul_overflowUnits_mul d
  have hodd : (infiniteMagnitude - 1) % 2 = 1 := by decide
  have hpos : 0 < infiniteMagnitude := by decide
  have hstep : unitsOf (infiniteMagnitude - 1) * d < unitsOf infiniteMagnitude * d :=
    Nat.mul_lt_mul_of_pos_right (unitsOf_strictMono (Nat.sub_one_lt hpos.ne')) hd
  generalize hlast : infiniteMagnitude - 1 = last at *
  obtain ⟨limit, hlimit⟩ : ∃ limit, overflowUnits * d = limit := ⟨_, rfl⟩
  rw [hlimit] at hhalfway ⊢
  constructor
  · intro hfinite
    obtain ⟨hnear, heven⟩ := nearestMagnitude_nearest n hd (Nat.ne_of_gt hfinite)
    have hbelow : nearestMagnitude n d ≤ last := by omega
    simp only [distanceFrom] at hnear heven
    by_contra hover
    -- at best the two are equally far, and then the last finite magnitude loses as the odd one
    have hunits : unitsOf (nearestMagnitude n d) * d ≤ unitsOf last * d :=
      Nat.mul_le_mul_right d (unitsOf_strictMono.monotone hbelow)
    have hsame : unitsOf (nearestMagnitude n d) * d = unitsOf last * d := by omega
    have hequal : nearestMagnitude n d = last :=
      unitsOf_strictMono.injective (Nat.eq_of_mul_eq_mul_right hd hsame)
    have htie := heven (by omega)
    omega
  · intro hlimited
    by_contra hover
    have hunits : unitsOf infiniteMagnitude * d ≤ unitsOf (nearestMagnitude n d) * d :=
      Nat.mul_le_mul_right d (unitsOf_strictMono.monotone (by omega))
    have hrival : last ≠ nearestMagnitude n d := by omega
    have hnear := (nearestMagnitude_nearest n hd hrival).1
    simp only [distanceFrom] at hnear
    omega

/-! ### Values of finite numbers -/

def value (x : Binary64) : ℚ := (x.signedUnits : ℚ) / (unitsPerOne : ℚ)

/-- `RoundsTo q x`: the finite number `x` is nearest to `q`, and if a number of another value is as
near, the last bit of `x` is zero. -/
structure RoundsTo (q : ℚ) (x : Binary64) : Prop where
  finite : x.isFinite = true
  nearest : ∀ y : Binary64, y.isFinite = true → |x.value - q| ≤ |y.value - q|
  even : ∀ y : Binary64, y.isFinite = true → |y.value - q| = |x.value - q| →
    y.value ≠ x.value → x.magnitude % 2 = 0

theorem unitsPerOne_pos : (0 : ℚ) < (unitsPerOne : ℚ) := by
  rw [unitsPerOne_eq, Nat.cast_pos]
  generalize 1074 = k
  exact Nat.two_pow_pos k

theorem value_inj {x y : Binary64} : x.value = y.value ↔ x.signedUnits = y.signedUnits := by
  rw [value, value, div_left_inj' unitsPerOne_pos.ne', Int.cast_inj]

theorem value_lt_value {x y : Binary64} : x.value < y.value ↔ x.signedUnits < y.signedUnits := by
  rw [value, value, div_lt_div_iff_of_pos_right unitsPerOne_pos, Int.cast_lt]

theorem abs_value_sub (x : Binary64) (n : Nat) {d : Nat} (hd : 0 < d) :
    |x.value - n / (d * unitsPerOne)| =
      ((x.signedUnits * d - n).natAbs : ℚ) / (d * unitsPerOne) := by
  have hunits := unitsPerOne_pos
  have hd' : (0 : ℚ) < d := Nat.cast_pos.2 hd
  have hdiff : x.value - n / (d * unitsPerOne) =
      ((x.signedUnits * d - n : ℤ) : ℚ) / (d * unitsPerOne) := by
    rw [value]
    push_cast
    generalize (unitsPerOne : ℚ) = one at *
    field_simp
  rw [hdiff, abs_div, abs_of_pos (mul_pos hd' hunits), Nat.cast_natAbs, Int.cast_abs]

theorem signedUnits_of_nonneg {x : Binary64} (h : x.negative = false) :
    x.signedUnits = unitsOf x.magnitude := by
  rw [signedUnits, h, units]
  rfl

/-- A number is as far from a quotient as its magnitude, or farther if it is negative. -/
theorem natAbs_signedUnits_sub (x : Binary64) (n d : Nat) :
    (x.signedUnits * d - n).natAbs =
      if x.negative then unitsOf x.magnitude * d + n else distanceFrom n d x.magnitude := by
  rw [signedUnits, units, distanceFrom, Int.natCast_mul]
  generalize unitsOf x.magnitude = u
  cases x.negative with
  | false => rfl
  | true =>
    rw [if_pos rfl, if_pos rfl, Int.neg_mul, ← Int.natCast_mul]
    omega

theorem distanceFrom_le (x : Binary64) (n d : Nat) :
    distanceFrom n d x.magnitude ≤ (x.signedUnits * d - n).natAbs := by
  rw [natAbs_signedUnits_sub]
  split
  · rw [distanceFrom]
    omega
  · exact Nat.le_refl _

theorem nearestMagnitude_zero (d : Nat) : nearestMagnitude 0 d = 0 := by
  have hdiv (k : Nat) : divNearest 0 k = 0 := by simp [divNearest]
  rw [nearestMagnitude, Nat.zero_div, Nat.log2_zero, hdiv, Nat.zero_sub, Nat.zero_mul]

theorem unitsOf_eq_zero {magnitude : Nat} (h : unitsOf magnitude = 0) : magnitude = 0 :=
  unitsOf_strictMono.injective h

theorem isFinite_nearest_iff {negative : Bool} {n d : Nat} :
    (nearest negative n d).isFinite = true ↔ nearestMagnitude n d < infiniteMagnitude := by
  have hmagnitude : (nearest negative n d).magnitude = min (nearestMagnitude n d) infiniteMagnitude :=
    rfl
  rw [isFinite_iff, hmagnitude]
  omega

theorem magnitude_nearest {negative : Bool} {n d : Nat}
    (hfinite : (nearest negative n d).isFinite = true) :
    (nearest negative n d).magnitude = nearestMagnitude n d :=
  Nat.min_eq_left (Nat.le_of_lt (isFinite_nearest_iff.1 hfinite))

/-- Rounding a quotient within the range gives the number nearest to it, or the even one of two. -/
theorem roundsTo_nearest {n d : Nat} (hd : 0 < d) (hfinite : (nearest false n d).isFinite = true) :
    RoundsTo (n / (d * unitsPerOne)) (nearest false n d) := by
  have hmagnitude := magnitude_nearest hfinite
  have hsign : (nearest false n d).negative = false := rfl
  generalize nearest false n d = x at *
  have hscale : (0 : ℚ) < d * unitsPerOne := mul_pos (Nat.cast_pos.2 hd) unitsPerOne_pos
  have hx : (x.signedUnits * d - n).natAbs = distanceFrom n d (nearestMagnitude n d) := by
    rw [natAbs_signedUnits_sub, hsign, if_neg Bool.false_ne_true, hmagnitude]
  refine ⟨hfinite, fun y _ => ?_, fun y _ hsame hother => ?_⟩
  · rw [abs_value_sub x n hd, abs_value_sub y n hd, div_le_div_iff_of_pos_right hscale,
      Nat.cast_le, hx]
    refine Nat.le_trans ?_ (distanceFrom_le y n d)
    by_cases hy : y.magnitude = nearestMagnitude n d
    · rw [hy]
    · exact (nearestMagnitude_nearest n hd hy).1
  · rw [abs_value_sub x n hd, abs_value_sub y n hd, div_left_inj' hscale.ne', Nat.cast_inj, hx]
      at hsame
    rw [hmagnitude]
    by_cases hy : y.magnitude = nearestMagnitude n d
    -- only the sign differs: both are as near only if the quotient or the number is zero
    · have hnegative : y.negative = true := by
        by_contra hpositive
        rw [Bool.not_eq_true] at hpositive
        apply hother
        rw [value_inj, signedUnits_of_nonneg hsign, signedUnits_of_nonneg hpositive, hy, hmagnitude]
      rw [natAbs_signedUnits_sub, hnegative, if_pos rfl, hy, distanceFrom] at hsame
      have hzero : n = 0 ∨ unitsOf (nearestMagnitude n d) * d = 0 := by omega
      rcases hzero with rfl | hzero
      · rw [nearestMagnitude_zero]
      · rw [unitsOf_eq_zero ((Nat.mul_eq_zero.1 hzero).resolve_right hd.ne')]
    · have hnear := nearestMagnitude_nearest n hd hy
      have hfar := distanceFrom_le y n d
      rw [hsame] at hfar
      exact hnear.2 (Nat.le_antisymm hnear.1 hfar)

theorem value_lt_of_magnitude_lt {x y : Binary64} (hx : x.negative = false)
    (hy : y.negative = false) (h : x.magnitude < y.magnitude) : x.value < y.value := by
  rw [value_lt_value, signedUnits_of_nonneg hx, signedUnits_of_nonneg hy]
  exact Int.ofNat_lt.2 (unitsOf_strictMono h)

namespace RoundsTo

variable {q : ℚ} {x y : Binary64}

theorem magnitude_le (hx : RoundsTo q x) (hy : RoundsTo q y) (hxsign : x.negative = false)
    (hysign : y.negative = false) : y.magnitude ≤ x.magnitude := by
  by_contra hlt
  have hless : x.value < y.value := value_lt_of_magnitude_lt hxsign hysign (by omega)
  have hsame : |x.value - q| = |y.value - q| :=
    le_antisymm (hx.nearest y hy.finite) (hy.nearest x hx.finite)
  have hxeven := hx.even y hy.finite hsame.symm hless.ne'
  have hyeven := hy.even x hx.finite hsame hless.ne
  have hyfinite := isFinite_iff.1 hy.finite
  -- between two even magnitudes stands another, which is nearer than both
  obtain ⟨z, hzsign, hz⟩ : ∃ z : Binary64, z.negative = false ∧ z.magnitude = x.magnitude + 1 :=
    ⟨⟨false, x.magnitude + 1, by have := y.magnitude_lt; omega⟩, rfl, rfl⟩
  have hxz : x.value < z.value := value_lt_of_magnitude_lt hxsign hzsign (by omega)
  have hzy : z.value < y.value := value_lt_of_magnitude_lt hzsign hysign (by omega)
  have hfar := hx.nearest z (isFinite_iff.2 (by omega))
  have hmid : x.value - q = -(y.value - q) :=
    (abs_eq_abs.1 hsame).resolve_left fun h => by linarith
  have hnearer : |z.value - q| < |x.value - q| := by
    rw [abs_of_neg (show x.value - q < 0 by linarith), abs_lt]
    constructor
    · linarith
    · linarith
  exact absurd hfar (not_le.2 hnearer)

/-- Rounding leaves no choice but the sign of a zero. -/
theorem unique (hx : RoundsTo q x) (hy : RoundsTo q y) (hxsign : x.negative = false)
    (hysign : y.negative = false) : x = y := by
  have hmagnitude : x.magnitude = y.magnitude :=
    Nat.le_antisymm (hy.magnitude_le hx hysign hxsign) (hx.magnitude_le hy hxsign hysign)
  cases x
  cases y
  simp_all

end RoundsTo

/-! ### Natural numbers -/

theorem isFinite_ofNat_iff (n : Nat) : (ofNat n).isFinite = true ↔ n < 2 ^ 1024 - 2 ^ 970 := by
  have hunits : 0 < unitsPerOne := Nat.cast_pos.1 unitsPerOne_pos
  rw [ofNat, isFinite_nearest_iff, nearestMagnitude_lt_iff _ Nat.one_pos, Nat.mul_one,
    overflowUnits, Nat.mul_lt_mul_right hunits]

theorem roundsTo_ofNat {n : Nat} (hfinite : (ofNat n).isFinite = true) :
    RoundsTo n (ofNat n) := by
  have hrounds := roundsTo_nearest Nat.one_pos hfinite
  rwa [Nat.cast_mul, Nat.cast_one, one_mul, mul_div_cancel_right₀ _ unitsPerOne_pos.ne'] at hrounds

end Binary64

end ExprLang
