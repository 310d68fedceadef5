import ExprLang.Proofs.DecimalTexts
import ExprLang.Proofs.DigitRuns

/-! # Printed numbers are read back

Rounding looks only at the value of a decimal, so it does not matter in which notation it stands.
A whole number is printed exactly, and any other finite one by a decimal that was tried before; both
round to the number. So a printed text tells its number, down to the sign of a zero. -/

namespace ExprLang

namespace Binary64

/-! ### Rounding equal quotients -/

theorem divNearest_mul_right (n d : Nat) {c : Nat} (hc : 0 < c) :
    divNearest (n * c) (d * c) = divNearest n d := by
  have hquotient : n * c / (d * c) = n / d := Nat.mul_div_mul_right n d hc
  have hremainder : n * c % (d * c) = n % d * c := Nat.mul_mod_mul_right c n d
  have hbelow : 2 * (n % d * c) < d * c ↔ 2 * (n % d) < d := by
    rw [← Nat.mul_assoc, Nat.mul_lt_mul_right hc]
  have habove : d * c < 2 * (n % d * c) ↔ d < 2 * (n % d) := by
    rw [← Nat.mul_assoc, Nat.mul_lt_mul_right hc]
  simp only [divNearest, hquotient, hremainder, hbelow, habove]

theorem nearest_mul_right (negative : Bool) (n d : Nat) {c : Nat} (hc : 0 < c) :
    nearest negative (n * c) (d * c) = nearest negative n d := by
  have hquotient : n * c / (d * c) = n / d := Nat.mul_div_mul_right n d hc
  have hshift (k : Nat) : d * c * k = d * k * c := Nat.mul_right_comm d c k
  simp only [nearest, nearestMagnitude, hquotient, hshift, divNearest_mul_right n _ hc]

theorem nearest_congr (negative : Bool) {n d m e : Nat} (hd : 0 < d) (he : 0 < e)
    (h : n * e = m * d) : nearest negative n d = nearest negative m e := by
  rw [← nearest_mul_right negative n d he, h, Nat.mul_comm d, nearest_mul_right negative m e hd]

/-! ### Signs -/

theorem signedUnits_neg (x : Binary64) : x.neg.signedUnits = -x.signedUnits := by
  have hunits : x.neg.units = x.units := rfl
  have hsign : x.neg.negative = !x.negative := rfl
  rw [signedUnits, signedUnits, hunits, hsign]
  cases x.negative with
  | false => rfl
  | true => exact (Int.neg_neg _).symm

theorem value_neg (x : Binary64) : x.neg.value = -x.value := by
  rw [value, value, signedUnits_neg, Int.cast_neg, neg_div]

theorem neg_neg_self (x : Binary64) : x.neg.neg = x := by
  simp only [neg, Bool.not_not]

theorem neg_nearest (n d : Nat) : (nearest false n d).neg = nearest true n d := rfl

theorem abs_value_neg (x : Binary64) (q : ℚ) : |x.neg.value - -q| = |x.value - q| := by
  rw [value_neg, ← abs_neg, neg_sub_neg, neg_sub]

namespace RoundsTo

variable {q : ℚ} {x y : Binary64}

theorem neg (h : RoundsTo q x) : RoundsTo (-q) x.neg := by
  -- every rival is the negation of its own negation, which is a rival of `x`
  refine ⟨h.finite, fun y hy => ?_, fun y hy hsame hother => ?_⟩
  · have hnear := h.nearest y.neg hy
    rwa [← abs_value_neg, ← abs_value_neg y.neg, y.neg_neg_self] at hnear
  · refine h.even y.neg hy ?_ ?_
    · rw [← abs_value_neg, ← abs_value_neg x, y.neg_neg_self]
      exact hsame
    · intro hvalue
      apply hother
      rw [value_neg, ← hvalue, value_neg, neg_neg]

/-- Rounding with a given sign leaves no choice at all. -/
theorem unique_of_sign (hx : RoundsTo q x) (hy : RoundsTo q y) (hsign : x.negative = y.negative) :
    x = y := by
  cases hneg : x.negative with
  | false => exact hx.unique hy hneg (hsign ▸ hneg)
  | true =>
    have hxneg : x.neg.negative = false := by rw [Binary64.neg, hneg]; rfl
    have hyneg : y.neg.negative = false := by rw [Binary64.neg, ← hsign, hneg]; rfl
    rw [← x.neg_neg_self, hx.neg.unique hy.neg hxneg hyneg, y.neg_neg_self]

end RoundsTo

end Binary64

/-! ### Rounding decimals -/

namespace Decimal

open Binary64 (nearest unitsPerOne unitsPerOne_pos RoundsTo)

def signedValue (negative : Bool) (d : Decimal) : ℚ := if negative then -d.value else d.value

theorem toBinary64_eq (negative : Bool) (d : Decimal) :
    ∃ n m : Nat, 0 < m ∧ d.toBinary64 negative = nearest negative n m ∧
      d.value = n / (m * unitsPerOne) := by
  obtain ⟨digits, exponent⟩ := d
  have hunits := unitsPerOne_pos.ne'
  cases exponent with
  | ofNat k =>
    refine ⟨digits * 10 ^ k * unitsPerOne, 1, Nat.one_pos, rfl, ?_⟩
    rw [value, Int.ofNat_eq_natCast, zpow_natCast]
    push_cast
    generalize (unitsPerOne : ℚ) = one at *
    rw [one_mul, mul_div_cancel_right₀ _ hunits]
  | negSucc k =>
    refine ⟨digits * unitsPerOne, 10 ^ (k + 1), Nat.pow_pos (by decide), rfl, ?_⟩
    rw [value, zpow_negSucc]
    push_cast
    generalize (unitsPerOne : ℚ) = one at *
    rw [mul_div_mul_right _ _ hunits, div_eq_mul_inv]

theorem toBinary64_congr {d e : Decimal} (h : d.value = e.value) (negative : Bool) :
    d.toBinary64 negative = e.toBinary64 negative := by
  obtain ⟨n, m, hm, hd, hdvalue⟩ := d.toBinary64_eq negative
  obtain ⟨n', m', hm', he, hevalue⟩ := e.toBinary64_eq negative
  have hunits := unitsPerOne_pos.ne'
  have hmcast : (m : ℚ) ≠ 0 := Nat.cast_ne_zero.2 hm.ne'
  have hmcast' : (m' : ℚ) ≠ 0 := Nat.cast_ne_zero.2 hm'.ne'
  rw [hdvalue, hevalue, div_eq_div_iff (mul_ne_zero hmcast hunits) (mul_ne_zero hmcast' hunits),
    ← mul_assoc, ← mul_assoc, mul_left_inj' hunits] at h
  rw [hd, he]
  exact Binary64.nearest_congr negative hm hm' (by exact_mod_cast h)

theorem toBinary64_of_value {x : Binary64} (hfinite : x.isFinite = true) {d : Decimal}
    (h : d.value = x.units / unitsPerOne) : d.toBinary64 x.negative = x := by
  obtain ⟨n, m, hm, hd, hvalue⟩ := d.toBinary64_eq x.negative
  have hunits := unitsPerOne_pos.ne'
  have hmcast : (m : ℚ) ≠ 0 := Nat.cast_ne_zero.2 hm.ne'
  rw [hvalue, div_eq_div_iff (mul_ne_zero hmcast hunits) hunits, ← mul_assoc,
    mul_left_inj' hunits] at h
  have hcross : n * 1 = x.units * m := by
    rw [Nat.mul_one]
    exact_mod_cast h
  rw [hd, Binary64.nearest_congr x.negative hm Nat.one_pos hcross, Binary64.nearest_units hfinite]

theorem roundsTo_toBinary64 {negative : Bool} {d : Decimal}
    (hfinite : (d.toBinary64 negative).isFinite = true) :
    RoundsTo (d.signedValue negative) (d.toBinary64 negative) := by
  obtain ⟨n, m, hm, hd, hvalue⟩ := d.toBinary64_eq negative
  rw [hd] at hfinite ⊢
  rw [signedValue, hvalue]
  cases negative with
  | false =>
    rw [if_neg Bool.false_ne_true]
    exact Binary64.roundsTo_nearest hm hfinite
  | true =>
    rw [if_pos rfl, ← Binary64.neg_nearest]
    exact (Binary64.roundsTo_nearest hm hfinite).neg

end Decimal

namespace Binary64

/-! ### The decimals that are printed -/

theorem toBinary64_of_shortestWith? {x : Binary64} {n : Nat} {d : Decimal}
    (h : x.shortestWith? n = some d) : d.toBinary64 x.negative = x := by
  unfold shortestWith? at h
  dsimp only at h
  generalize leadingExponent x.units + 1 - n = exponent at h
  generalize scaledUnits x.units exponent = fraction at h
  obtain ⟨num, den⟩ := fraction
  split at h
  · next hbelow habove =>
    rw [← Option.some.inj h]
    -- of two neighbours that read back it is one of them
    rcases divNearest_cases num den with heq | heq
    · rw [heq]
      exact eq_of_beq hbelow
    · rw [heq]
      exact eq_of_beq habove
  · next hbelow _ =>
    rw [← Option.some.inj h]
    exact eq_of_beq hbelow
  · next habove =>
    rw [← Option.some.inj h]
    exact eq_of_beq habove
  · cases h

theorem value_five_pow (u k : Nat) :
    Decimal.value ⟨u * Nat.pow 5 k, -k⟩ = u / (2 ^ k : ℕ) := by
  have hten : (10 : ℚ) ^ k = 5 ^ k * 2 ^ k := by
    rw [← mul_pow]
    norm_num
  have hfive : (5 : ℚ) ^ k ≠ 0 := pow_ne_zero k (by norm_num)
  rw [Decimal.value, zpow_neg, zpow_natCast, hten, ← div_eq_mul_inv, Nat.pow_eq]
  push_cast
  rw [mul_comm (u : ℚ), mul_div_mul_left _ _ hfive]

theorem toBinary64_exactDecimal {x : Binary64} (hfinite : x.isFinite = true) :
    x.exactDecimal.toBinary64 x.negative = x := by
  apply Decimal.toBinary64_of_value hfinite
  have hexponent : (-1074 : ℤ) = -(1074 : ℕ) := rfl
  rw [exactDecimal, hexponent, unitsPerOne_eq]
  generalize 1074 = k
  exact value_five_pow x.units k

theorem toBinary64_shortest {x : Binary64} (hfinite : x.isFinite = true) :
    x.shortest.toBinary64 x.negative = x := by
  rw [shortest]
  cases h : (List.range 17).findSome? fun i => x.shortestWith? (i + 1) with
  | none => exact toBinary64_exactDecimal hfinite
  | some d =>
    obtain ⟨i, -, hi⟩ := List.exists_of_findSome?_eq_some h
    exact toBinary64_of_shortestWith? hi

theorem units_div_unitsPerOne {x : Binary64} (hwhole : x.isWhole = true) :
    ((x.units / unitsPerOne : ℕ) : ℚ) = x.units / unitsPerOne := by
  have hdvd : unitsPerOne ∣ x.units := by
    apply Nat.dvd_of_mod_eq_zero
    simpa [isWhole] using hwhole
  rw [eq_div_iff unitsPerOne_pos.ne']
  exact_mod_cast Nat.div_mul_cancel hdvd

theorem digits_shortest_ne_zero {x : Binary64} (hfinite : x.isFinite = true)
    (hwhole : x.isWhole = false) : x.shortest.digits ≠ 0 := by
  intro hzero
  have hunits : (zero x.negative).units = 0 := by simp [units, zero, saturated, unitsOf]
  have hvalue : x.shortest.value = (zero x.negative).units / unitsPerOne := by
    rw [Decimal.value, hzero, hunits, Nat.cast_zero, zero_mul, zero_div]
  have hzero' : x.shortest.toBinary64 x.negative = zero x.negative :=
    Decimal.toBinary64_of_value (x := zero x.negative) rfl hvalue
  have hx : zero x.negative = x := hzero'.symm.trans (toBinary64_shortest hfinite)
  rw [← hx, isWhole, hunits, Nat.zero_mod] at hwhole
  cases hwhole

/-! ### Reading what was printed -/

theorem read?_signed {x : Binary64} {text : List Char} {q : ℚ} (h : Decimal.Denotes text q) :
    ∃ d : Decimal, d.value = q ∧ Decimal.read? (x.signed text) = some (x.negative, d) := by
  obtain ⟨d, hvalue, hplain, hminus⟩ := h
  refine ⟨d, hvalue, ?_⟩
  rw [signed]
  cases x.negative with
  | false => exact hplain
  | true => exact hminus

/-- The text of a finite number denotes a decimal that rounds to it. -/
theorem exists_decimal_of_print {x : Binary64} (hfinite : x.isFinite = true) :
    ∃ d : Decimal, Decimal.read? x.print.toList = some (x.negative, d) ∧
      d.toBinary64 x.negative = x := by
  cases hwhole : x.isWhole with
  | true =>
    have hdenotes := Decimal.denotes_whole (Decimal.digits_toDigits (x.units / unitsPerOne))
      (Decimal.toDigits_ne_nil _)
    obtain ⟨d, hvalue, hread⟩ := read?_signed (x := x) hdenotes
    rw [Decimal.ofDigits_toDigits, units_div_unitsPerOne hwhole] at hvalue
    refine ⟨d, ?_, Decimal.toBinary64_of_value hfinite hvalue⟩
    rw [print_of_isWhole hfinite hwhole, String.toList_ofList, hread]
  | false =>
    have hdenotes := Decimal.denotes_layout (digits_shortest_ne_zero hfinite hwhole)
    obtain ⟨d, hvalue, hread⟩ := read?_signed (x := x) hdenotes
    refine ⟨d, ?_, ?_⟩
    · simpa [print, isNaN_of_isFinite hfinite, isInfinite_of_isFinite hfinite, hwhole] using hread
    · rw [Decimal.toBinary64_congr hvalue, toBinary64_shortest hfinite]

theorem eq_infinity {x : Binary64} (h : x.isInfinite = true) : x = infinity x.negative := by
  obtain ⟨negative, magnitude, hlt⟩ := x
  obtain rfl : magnitude = infiniteMagnitude := eq_of_beq h
  rfl

theorem read?_print {x : Binary64} (hnan : x.isNaN = false) : read? x.print = some x := by
  cases hinfinite : x.isInfinite with
  | true =>
    have hx := eq_infinity hinfinite
    cases hsign : x.negative with
    | false =>
      have htext : x.print = "inf" := by
        simp only [print, hnan, hinfinite, signed, hsign]
        rfl
      rw [htext, hx, hsign]
      rfl
    | true =>
      have htext : x.print = "-inf" := by
        simp only [print, hnan, hinfinite, signed, hsign]
        rfl
      rw [htext, hx, hsign]
      rfl
  | false =>
    have hfinite : x.isFinite = true := by
      rw [isNaN, decide_eq_false_iff_not] at hnan
      rw [isInfinite, beq_eq_false_iff_ne] at hinfinite
      rw [isFinite_iff]
      omega
    obtain ⟨d, hread, hd⟩ := exists_decimal_of_print hfinite
    have hinf : x.print ≠ "inf" := by
      intro htext
      rw [htext] at hread
      cases hread
    have hminus : x.print ≠ "-inf" := by
      intro htext
      rw [htext] at hread
      cases hread
    rw [read?, if_neg hinf, if_neg hminus, hread, Option.map_some]
    exact congrArg some hd

/-! ### Whole numbers -/

theorem natAbs_signedUnits (x : Binary64) : x.signedUnits.natAbs = x.units := by
  rw [signedUnits]
  split
  · exact Int.natAbs_neg _
  · rfl

theorem signedUnits_of_value {x : Binary64} {z : ℤ} (h : x.value = z) :
    x.signedUnits = z * unitsPerOne := by
  rw [value, div_eq_iff unitsPerOne_pos.ne'] at h
  exact_mod_cast h

theorem eq_zero_of_units {x : Binary64} (h : x.units = 0) : x = zero x.negative := by
  have hmagnitude : x.magnitude = 0 := unitsOf_eq_zero h
  obtain ⟨negative, magnitude, hlt⟩ := x
  obtain rfl : magnitude = 0 := hmagnitude
  rfl

/-- A whole number has a minus if it is below zero or the negative zero. -/
theorem negative_iff_of_value {x : Binary64} {z : ℤ} (h : x.value = z) :
    x.negative = true ↔ z < 0 ∨ x = zero true := by
  have hpos : (0 : ℤ) < unitsPerOne := by exact_mod_cast unitsPerOne_pos
  have hunits := signedUnits_of_value h
  rw [signedUnits] at hunits
  cases hsign : x.negative with
  | false =>
    rw [hsign, if_neg Bool.false_ne_true] at hunits
    have hz : 0 ≤ z := nonneg_of_mul_nonneg_left (hunits ▸ Int.natCast_nonneg _) hpos
    constructor
    · intro hfalse
      cases hfalse
    · rintro (hneg | rfl)
      · omega
      · cases hsign
  | true =>
    rw [hsign, if_pos rfl] at hunits
    refine ⟨fun _ => ?_, fun _ => rfl⟩
    by_cases hzero : x.units = 0
    · right
      rw [← hsign]
      exact eq_zero_of_units hzero
    · left
      exact neg_of_mul_neg_left (by omega) hpos.le

theorem print_of_value {x : Binary64} (hfinite : x.isFinite = true) {z : ℤ} (h : x.value = z) :
    x.print.toList = x.signed (Decimal.toDigits z.natAbs) := by
  have hpos : 0 < unitsPerOne := Nat.cast_pos.1 unitsPerOne_pos
  have hunits : x.units = z.natAbs * unitsPerOne := by
    rw [← natAbs_signedUnits, signedUnits_of_value h, Int.natAbs_mul, Int.natAbs_natCast]
  have hwhole : x.isWhole = true := by
    rw [isWhole, hunits, Nat.mul_mod_left]
    rfl
  rw [print_of_isWhole hfinite hwhole, String.toList_ofList, hunits, Nat.mul_div_cancel _ hpos]

/-! ### Bit patterns -/

theorem toBits_ofBits (bits : UInt64) : (ofBits bits).toBits = bits := by
  have hlt := bits.toNat_lt
  have hmagnitude : (ofBits bits).magnitude = bits.toNat % 2 ^ 63 := rfl
  have hnat : (if (ofBits bits).negative then Nat.pow 2 63 else 0) + (ofBits bits).magnitude =
      bits.toNat := by
    rw [hmagnitude, Nat.pow_eq]
    by_cases hsign : 2 ^ 63 ≤ bits.toNat
    · have hnegative : (ofBits bits).negative = true := decide_eq_true hsign
      rw [hnegative, if_pos rfl]
      omega
    · have hnegative : (ofBits bits).negative = false := decide_eq_false hsign
      rw [hnegative, if_neg Bool.false_ne_true]
      omega
  rw [toBits, hnat, UInt64.ofNat_toNat]

/-- The text of a number that is no NaN is read back as the same bits, so no other such number has
it. That of a finite number is a decimal that rounds to no other number of its sign, and that of a
whole number consists of its digits, after a minus where there is one. -/
theorem print_identifies (bits : UInt64) (hnan : (ofBits bits).isNaN = false) :
    (read? (ofBits bits).print).map toBits = some bits ∧
    (∀ other : UInt64, (ofBits other).isNaN = false →
      (ofBits other).print = (ofBits bits).print → other = bits) ∧
    ((ofBits bits).isFinite = true → ∃ d : Decimal,
      Decimal.read? (ofBits bits).print.toList = some ((ofBits bits).negative, d) ∧
      RoundsTo (d.signedValue (ofBits bits).negative) (ofBits bits) ∧
      ∀ y : Binary64, y.negative = (ofBits bits).negative →
        RoundsTo (d.signedValue (ofBits bits).negative) y → y = ofBits bits) ∧
    ((ofBits bits).isFinite = true → ∀ z : ℤ, (ofBits bits).value = z → ∃ digits : List Char,
      (ofBits bits).print.toList =
        (if z < 0 ∨ ofBits bits = zero true then '-' :: digits else digits) ∧
      digits ≠ [] ∧ (∀ c ∈ digits, Decimal.isDigit c = true) ∧
      (digits.head? = some '0' → digits = ['0']) ∧
      Nat.ofDigits 10 (digits.reverse.map Decimal.digitValue) = z.natAbs) := by
  have hread := read?_print hnan
  have hbits := toBits_ofBits bits
  generalize ofBits bits = x at *
  refine ⟨by rw [hread, Option.map_some, hbits], ?_, ?_, ?_⟩
  · intro other hother htext
    have hsame := read?_print hother
    rw [htext, hread, Option.some.injEq] at hsame
    rw [← hbits, hsame, toBits_ofBits]
  · intro hfinite
    obtain ⟨d, htext, hd⟩ := exists_decimal_of_print hfinite
    have hrounds : RoundsTo (d.signedValue x.negative) x := by
      have h := Decimal.roundsTo_toBinary64 (d := d) (hd.symm ▸ hfinite)
      rwa [hd] at h
    exact ⟨d, htext, hrounds, fun y hsign hy => hy.unique_of_sign hrounds hsign⟩
  · intro hfinite z hz
    refine ⟨Decimal.toDigits z.natAbs, ?_, Decimal.toDigits_ne_nil _, Decimal.digits_toDigits _, ?_,
      ?_⟩
    · rw [print_of_value hfinite hz, signed]
      simp only [negative_iff_of_value hz]
    · intro hhead
      rcases Nat.eq_zero_or_pos z.natAbs with hzero | hpos
      · rw [hzero]
        rfl
      · exact absurd hhead (Decimal.head?_toDigits_ne_zero hpos)
    · rw [← Decimal.ofDigits_eq, Decimal.ofDigits_toDigits]

/-- The least number with a hidden bit, and the negative zero. -/
theorem print_identifies_leastNormal :
    (ofBits 0x0010000000000000).isNaN = false ∧
    (read? (ofBits 0x0010000000000000).print).map toBits = some 0x0010000000000000 ∧
    (ofBits 0x8000000000000000).isNaN = false ∧
    ∃ digits : List Char, (ofBits 0x8000000000000000).print.toList = '-' :: digits ∧
      digits ≠ [] ∧ (∀ c ∈ digits, Decimal.isDigit c = true) ∧
      (digits.head? = some '0' → digits = ['0']) ∧
      Nat.ofDigits 10 (digits.reverse.map Decimal.digitValue) = 0 := by
  have hzero : ofBits 0x8000000000000000 = zero true := by decide
  have hvalue : (ofBits 0x8000000000000000).value = (0 : ℤ) := by
    have hunits : (ofBits 0x8000000000000000).signedUnits = 0 := by decide
    rw [value, hunits, Int.cast_zero, zero_div]
  obtain ⟨digits, htext, hdigits⟩ :=
    (print_identifies 0x8000000000000000 (by decide)).2.2.2 (by decide) 0 hvalue
  rw [if_pos (.inr hzero)] at htext
  exact ⟨by decide, (print_identifies 0x0010000000000000 (by decide)).1, by decide, digits, htext,
    hdigits⟩

example : (ofBits 0x0010000000000000).print = "2.2250738585072014e-308" := by decide +kernel

end Binary64

end ExprLang
