import ExprLang.Proofs.Rounding

/-! # Texts of decimals

A decimal is laid out with a point or with an exponent, and in both notations the zeros at its end
are dropped. In either notation the text denotes the value of the decimal, also after a minus. -/

namespace ExprLang.Decimal

def value (d : Decimal) : ℚ := d.digits * 10 ^ d.exponent

/-! ### Digits -/

theorem ofDigits_append (cs ds : List Char) :
    ofDigits (cs ++ ds) = ofDigits cs * 10 ^ ds.length + ofDigits ds := by
  show Nat.ofDigitChars 10 (cs ++ ds) 0 = _
  rw [Nat.ofDigitChars_append, Nat.ofDigitChars_eq_ofDigitChars_zero, Nat.mul_comm]
  rfl

theorem ofDigits_zeros (n : Nat) : ofDigits (zeros n) = 0 := by
  show Nat.ofDigitChars 10 (List.replicate n '0') 0 = 0
  rw [Nat.ofDigitChars_replicate_zero, Nat.mul_zero]

theorem ofDigits_zeros_append (n : Nat) (cs : List Char) :
    ofDigits (zeros n ++ cs) = ofDigits cs := by
  rw [ofDigits_append, ofDigits_zeros, Nat.zero_mul, Nat.zero_add]

theorem ofDigits_append_zeros (cs : List Char) (n : Nat) :
    ofDigits (cs ++ zeros n) = ofDigits cs * 10 ^ n := by
  rw [ofDigits_append, ofDigits_zeros, Nat.add_zero, zeros, List.length_replicate]

def Digits (cs : List Char) : Prop := ∀ c ∈ cs, isDigit c = true

theorem Digits.append {cs ds : List Char} (hcs : Digits cs) (hds : Digits ds) :
    Digits (cs ++ ds) := by
  intro c hc
  rcases List.mem_append.1 hc with hc | hc
  · exact hcs c hc
  · exact hds c hc

theorem digits_zeros (n : Nat) : Digits (zeros n) := by
  intro c hc
  rw [List.eq_of_mem_replicate hc]
  rfl

theorem digits_toDigits (n : Nat) : Digits (toDigits n) := fun _ => isDigit_of_mem_toDigits

theorem head?_toDigits_ne_zero {n : Nat} (hn : 0 < n) : (toDigits n).head? ≠ some '0' := by
  induction n using Nat.strongRecOn with
  | ind n ih =>
    rcases Nat.lt_or_ge n 10 with hsmall | hlarge
    · intro hhead
      rw [toDigits, Nat.toDigits_of_lt_base hsmall, List.head?_cons, Option.some.injEq] at hhead
      have hvalue := ofDigits_toDigits n
      rw [toDigits, Nat.toDigits_of_lt_base hsmall, hhead] at hvalue
      exact absurd hvalue (Nat.ne_of_lt hn)
    · rw [toDigits, Nat.toDigits_of_base_le (by decide) hlarge,
        List.head?_append_of_ne_nil _ Nat.toDigits_ne_nil]
      exact ih (n / 10) (by omega) (by omega)

theorem takeWhile_isDigit {cs rest : List Char} (hcs : Digits cs)
    (hrest : rest.takeWhile isDigit = []) :
    (cs ++ rest).takeWhile isDigit = cs ∧ (cs ++ rest).dropWhile isDigit = rest := by
  have hsplit : rest.takeWhile isDigit ++ rest.dropWhile isDigit = rest :=
    List.takeWhile_append_dropWhile
  rw [hrest, List.nil_append] at hsplit
  rw [List.takeWhile_append_of_pos hcs, List.dropWhile_append_of_pos hcs, hrest, List.append_nil]
  exact ⟨rfl, hsplit⟩

/-! ### Reading the parts of a text -/

/-- `Denotes text q`: the text is read as a decimal of value `q`, and after a minus as one of value
`-q`. -/
def Denotes (text : List Char) (q : ℚ) : Prop :=
  ∃ d : Decimal, d.value = q ∧ read? text = some (false, d) ∧ read? ('-' :: text) = some (true, d)

theorem splitSign_digit {c : Char} (h : isDigit c = true) (cs : List Char) :
    splitSign (c :: cs) = (false, c :: cs) := by
  unfold splitSign
  split
  · next heq =>
    obtain ⟨rfl, -⟩ := List.cons.inj heq
    cases h
  · next heq =>
    obtain ⟨rfl, -⟩ := List.cons.inj heq
    cases h
  · rfl

theorem denotes_parts {whole fraction tail : List Char} {e : Int} (hwhole : Digits whole)
    (hne : whole ≠ []) (rest : List Char) (hrest : rest.takeWhile isDigit = [])
    (hfraction : splitFraction rest = (fraction, tail)) (htail : readExponent? tail = some e) :
    Denotes (whole ++ rest) (ofDigits (whole ++ fraction) * 10 ^ (e - fraction.length)) := by
  obtain ⟨htake, hdrop⟩ := takeWhile_isDigit hwhole hrest
  have hsign : splitSign (whole ++ rest) = (false, whole ++ rest) := by
    cases whole with
    | nil => exact absurd rfl hne
    | cons c cs => exact splitSign_digit (hwhole c List.mem_cons_self) (cs ++ rest)
  have hminus : splitSign ('-' :: (whole ++ rest)) = (true, whole ++ rest) := rfl
  have hsome : (whole.isEmpty && fraction.isEmpty) = false := by
    rw [List.isEmpty_eq_false_iff.2 hne, Bool.false_and]
  refine ⟨⟨ofDigits (whole ++ fraction), e - fraction.length⟩, rfl, ?_, ?_⟩
  · simp only [read?, hsign, htake, hdrop, hfraction, hsome, htail, Option.map_some]
    rfl
  · simp only [read?, hminus, htake, hdrop, hfraction, hsome, htail, Option.map_some]
    rfl

theorem denotes_whole {whole : List Char} (hwhole : Digits whole) (hne : whole ≠ []) :
    Denotes whole (ofDigits whole) := by
  have h := denotes_parts hwhole hne [] rfl rfl rfl
  rwa [List.append_nil, List.length_nil, Int.natCast_zero, Int.sub_zero, zpow_zero, mul_one] at h

theorem splitFraction_point {fraction : List Char} (hfraction : Digits fraction) (rest : List Char)
    (hrest : rest.takeWhile isDigit = []) :
    splitFraction ('.' :: (fraction ++ rest)) = (fraction, rest) := by
  obtain ⟨htake, hdrop⟩ := takeWhile_isDigit hfraction hrest
  rw [splitFraction, htake, hdrop]

theorem denotes_pointed {whole fraction : List Char} (hwhole : Digits whole) (hne : whole ≠ [])
    (hfraction : Digits fraction) :
    Denotes (whole ++ '.' :: fraction)
      (ofDigits (whole ++ fraction) * 10 ^ (-fraction.length : ℤ)) := by
  have hsplit : splitFraction ('.' :: fraction) = (fraction, []) := by
    have h := splitFraction_point hfraction [] rfl
    rwa [List.append_nil] at h
  have h := denotes_parts hwhole hne ('.' :: fraction) rfl hsplit rfl
  rwa [Int.zero_sub] at h

theorem readExponent?_exponentText (e : Int) : readExponent? ('e' :: exponentText e) = some e := by
  have hall : Digits (zeros (2 - (toDigits e.natAbs).length) ++ toDigits e.natAbs) :=
    (digits_zeros _).append (digits_toDigits _)
  have hvalue := ofDigits_zeros_append (2 - (toDigits e.natAbs).length) (toDigits e.natAbs)
  have hempty :
      (zeros (2 - (toDigits e.natAbs).length) ++ toDigits e.natAbs).isEmpty = false := by
    rw [List.isEmpty_eq_false_iff]
    exact List.append_ne_nil_of_right_ne_nil _ (toDigits_ne_nil _)
  rw [ofDigits_toDigits] at hvalue
  simp only [exponentText]
  generalize zeros (2 - (toDigits e.natAbs).length) ++ toDigits e.natAbs = digits at *
  have hdigits : digits.all isDigit = true := List.all_eq_true.2 hall
  by_cases hneg : e < 0
  · rw [if_pos hneg]
    simp only [readExponent?, splitSign, hempty, hdigits, hvalue]
    simp only [decide_true, Bool.true_or, Bool.not_false, Bool.and_true, if_true, Option.some.injEq]
    omega
  · rw [if_neg hneg]
    simp only [readExponent?, splitSign, hempty, hdigits, hvalue]
    simp only [decide_true, Bool.true_or, Bool.not_false, Bool.and_true, if_true, Option.some.injEq,
      Bool.false_eq_true, if_false]
    omega

/-! ### Both notations -/

theorem cast_mul_zpow (n k : Nat) (e : ℤ) :
    ((n * 10 ^ k : ℕ) : ℚ) * 10 ^ e = n * 10 ^ (k + e) := by
  rw [zpow_add₀ (by norm_num), zpow_natCast, Nat.cast_mul, Nat.cast_pow, mul_assoc]
  rfl

theorem positional_succ (digits : List Char) (p : Nat) :
    positional digits (p + 1 : ℕ) =
      if p + 1 < digits.length then digits.take (p + 1) ++ '.' :: digits.drop (p + 1)
      else digits ++ zeros (p + 1 - digits.length) ++ ['.', '0'] := rfl

theorem denotes_positional {digits : List Char} (hdigits : Digits digits) (hne : digits ≠ [])
    (point : Int) :
    Denotes (positional digits point) (ofDigits digits * 10 ^ (point - digits.length)) := by
  have hzero : Digits ['0'] := digits_zeros 1
  cases point with
  | ofNat p =>
    rw [Int.ofNat_eq_natCast]
    cases p with
    | zero =>
      have h := denotes_pointed hzero (List.cons_ne_nil _ _) hdigits
      rw [show ['0'] ++ digits = zeros 1 ++ digits from rfl, ofDigits_zeros_append] at h
      rw [Int.natCast_zero, Int.zero_sub]
      exact h
    | succ p =>
      by_cases hlt : p + 1 < digits.length
      -- the point stands among the digits
      · have htake : Digits (digits.take (p + 1)) := fun c hc => hdigits c (List.mem_of_mem_take hc)
        have hdrop : Digits (digits.drop (p + 1)) := fun c hc => hdigits c (List.mem_of_mem_drop hc)
        have hfront : digits.take (p + 1) ≠ [] := by
          rw [← List.length_pos_iff, List.length_take]
          omega
        have h := denotes_pointed htake hfront hdrop
        have hpoint : -((digits.drop (p + 1)).length : ℤ) = (p + 1 : ℕ) - digits.length := by
          rw [List.length_drop]
          omega
        rw [List.take_append_drop, hpoint] at h
        rwa [positional_succ, if_pos hlt]
      -- zeros stand between the digits and the point, and one after it
      · have hpad : Digits (digits ++ zeros (p + 1 - digits.length)) :=
          hdigits.append (digits_zeros _)
        have h := denotes_pointed hpad (List.append_ne_nil_of_left_ne_nil hne _) hzero
        have hzeros : digits ++ zeros (p + 1 - digits.length) ++ ['0'] =
            digits ++ zeros (p + 1 - digits.length + 1) := by
          rw [zeros, zeros, List.append_assoc, ← List.replicate_succ']
        have hpoint : ((p + 1 - digits.length + 1 : ℕ) : ℤ) + -(['0'].length : ℤ) =
            (p + 1 : ℕ) - digits.length := by
          rw [List.length_singleton]
          omega
        rw [hzeros, ofDigits_append_zeros, cast_mul_zpow, hpoint] at h
        rwa [positional_succ, if_neg hlt]
  | negSucc k =>
    have h := denotes_pointed hzero (List.cons_ne_nil _ _) ((digits_zeros (k + 1)).append hdigits)
    have hpoint : -((zeros (k + 1) ++ digits).length : ℤ) = Int.negSucc k - digits.length := by
      rw [List.length_append, zeros, List.length_replicate]
      omega
    rw [show ['0'] ++ (zeros (k + 1) ++ digits) = zeros (k + 2) ++ digits from rfl,
      ofDigits_zeros_append, hpoint] at h
    exact h

theorem denotes_scientific {digits : List Char} (hdigits : Digits digits) (hne : digits ≠ [])
    (e : Int) : Denotes (scientific digits e) (ofDigits digits * 10 ^ (e + 1 - digits.length)) := by
  have hexponent := readExponent?_exponentText e
  match digits with
  | [] => exact absurd rfl hne
  | [d] =>
    have h := denotes_parts hdigits hne ('e' :: exponentText e) rfl rfl hexponent
    rw [List.append_nil, List.length_nil] at h
    rw [show (e + 1 - [d].length : ℤ) = e - (0 : ℕ) by simp]
    exact h
  | d :: c :: cs =>
    have hfirst : Digits [d] := List.forall_mem_singleton.2 (hdigits d List.mem_cons_self)
    have hrest : Digits (c :: cs) := fun _ hc => hdigits _ (List.mem_cons_of_mem _ hc)
    have hsplit := splitFraction_point hrest ('e' :: exponentText e) rfl
    have h := denotes_parts hfirst (List.cons_ne_nil _ _) _ rfl hsplit hexponent
    rw [show (e + 1 - (d :: c :: cs).length : ℤ) = e - (c :: cs).length by simp]
    exact h

theorem append_dropTrailingZeros (cs : List Char) : ∃ k, cs = dropTrailingZeros cs ++ zeros k := by
  have hsplit : cs.reverse.takeWhile (· = '0') ++ cs.reverse.dropWhile (· = '0') = cs.reverse :=
    List.takeWhile_append_dropWhile
  have hzeros : cs.reverse.takeWhile (· = '0') = zeros (cs.reverse.takeWhile (· = '0')).length := by
    rw [zeros, List.eq_replicate_iff]
    exact ⟨rfl, fun c hc => by simpa using List.all_eq_true.1 List.all_takeWhile c hc⟩
  refine ⟨(cs.reverse.takeWhile (· = '0')).length, ?_⟩
  have hreverse := congrArg List.reverse hsplit
  rw [List.reverse_append, List.reverse_reverse, hzeros, zeros, List.reverse_replicate] at hreverse
  exact hreverse.symm

/-- The text of a decimal that is not zero denotes its value. -/
theorem denotes_layout {d : Decimal} (hd : d.digits ≠ 0) : Denotes d.layout d.value := by
  obtain ⟨k, hk⟩ := append_dropTrailingZeros (toDigits d.digits)
  have hvalue : d.digits = ofDigits (dropTrailingZeros (toDigits d.digits)) * 10 ^ k := by
    rw [← ofDigits_append_zeros, ← hk, ofDigits_toDigits]
  have hdigits : Digits (dropTrailingZeros (toDigits d.digits)) := by
    intro c hc
    apply digits_toDigits d.digits
    rw [hk]
    exact List.mem_append_left _ hc
  have hlength :
      (toDigits d.digits).length = (dropTrailingZeros (toDigits d.digits)).length + k := by
    rw [congrArg List.length hk, List.length_append, zeros, List.length_replicate]
  simp only [layout, value]
  generalize dropTrailingZeros (toDigits d.digits) = digits at *
  have hne : digits ≠ [] := by
    rintro rfl
    exact hd (hvalue.trans (Nat.zero_mul _))
  rw [hlength, hvalue, cast_mul_zpow]
  have hexponent : ((digits.length + k : ℕ) + d.exponent - 1 : ℤ) + 1 - digits.length =
      k + d.exponent := by omega
  rw [← hexponent]
  split
  · exact denotes_positional hdigits hne _
  · exact denotes_scientific hdigits hne _

end ExprLang.Decimal
