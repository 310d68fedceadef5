import ExprLang.Proofs.Rendering
import ExprLang.Proofs.Rounding
import Mathlib.Data.Nat.Digits.Defs

/-! # Runs of digits

A run of digits is one lexeme, however long it is and whatever zeros it starts with. It is a number as
long as the natural number that it denotes rounds to a finite one, and then it is the nearest; from
half a step above the greatest finite number on it is invalid. -/

namespace ExprLang

theorem Decimal.ofDigits_eq (cs : List Char) :
    ofDigits cs = Nat.ofDigits 10 (cs.reverse.map digitValue) := by
  rw [ofDigits, Nat.ofDigits_eq_foldr, List.foldr_map, List.foldr_reverse]
  simp only [Nat.cast_id, Nat.add_comm]

namespace Lexeme

theorem newline_notMem_digits {cs : List Char} (h : ∀ c ∈ cs, Decimal.isDigit c = true) :
    '\n' ∉ cs := by
  intro hmem
  exact absurd (h '\n' hmem) (by decide)

end Lexeme

namespace Token

theorem scan_eq_numberToken {digits : String} (hne : digits ≠ "")
    (hdigits : ∀ c ∈ digits.toList, Decimal.isDigit c = true) :
    scan digits = [Lexeme.numberToken ⟨1, 1⟩ digits.toList, .endOfFile ⟨1, 1 + digits.length⟩] := by
  have hplaced (pos : Position) : Lexeme.numberToken pos digits.toList =
      (Lexeme.numberToken ⟨1, 1⟩ digits.toList).placedAt pos :=
    Lexeme.numberToken_mapPos (fun _ => pos) ⟨1, 1⟩ digits.toList
  have hreads : Lexeme.ReadsAs digits.toList (Lexeme.numberToken ⟨1, 1⟩ digits.toList) := by
    cases htext : digits.toList with
    | nil => exact absurd (String.toList_eq_nil_iff.1 htext) hne
    | cons c cs =>
      rw [htext] at hdigits hplaced
      exact Lexeme.readsAs_digits hdigits hplaced
  rw [scan_of_readsAs hreads (Lexeme.newline_notMem_digits hdigits), ← hplaced]

/-- A run of digits is invalid exactly if the number that it denotes lies half a step above the
greatest finite number, or higher. Otherwise it is the one number that rounding gives. -/
theorem scan_digits {digits : String} (hne : digits ≠ "")
    (hdigits : ∀ c ∈ digits.toList, Decimal.isDigit c = true) {n : Nat}
    (hn : n = Nat.ofDigits 10 (digits.toList.reverse.map Decimal.digitValue)) :
    (scan digits = [.invalid (.syntaxError ⟨1, 1⟩ "Failed to parse number"),
        .endOfFile ⟨1, 1 + digits.length⟩] ↔ 2 ^ 1024 - 2 ^ 970 ≤ n) ∧
      (n < 2 ^ 1024 - 2 ^ 970 → ∃ x : Binary64,
        scan digits = [.literal (.number x) ⟨1, 1⟩, .endOfFile ⟨1, 1 + digits.length⟩] ∧
          x.negative = false ∧ Binary64.RoundsTo n x ∧
            ∀ y : Binary64, y.negative = false → Binary64.RoundsTo n y → y = x) := by
  have hscan := scan_eq_numberToken hne hdigits
  have hfinite := Binary64.isFinite_ofNat_iff n
  rw [← Decimal.ofDigits_eq] at hn
  rw [hscan, Lexeme.numberToken, ← hn]
  generalize 2 ^ 1024 - 2 ^ 970 = limit at *
  by_cases hrange : (Binary64.ofNat n).isFinite = true
  · have hrounds := Binary64.roundsTo_ofNat hrange
    have hbelow := hfinite.1 hrange
    rw [if_pos hrange]
    refine ⟨⟨fun heq => by simp at heq, fun habove => absurd habove (by omega)⟩,
      fun _ => ⟨Binary64.ofNat n, rfl, rfl, hrounds, fun y hsign hy => ?_⟩⟩
    exact hy.unique hrounds hsign rfl
  · have habove : limit ≤ n := by
      rw [hfinite] at hrange
      omega
    rw [if_neg hrange]
    exact ⟨⟨fun _ => habove, fun _ => rfl⟩, fun hbelow => absurd habove (by omega)⟩

/-- Halfway between two numbers, with leading zeros, and the least natural number out of range. -/
theorem scan_digits_halfway :
    (∃ x : Binary64, scan "0009007199254740993" =
        [.literal (.number x) ⟨1, 1⟩, .endOfFile ⟨1, 20⟩] ∧
      x.negative = false ∧ Binary64.RoundsTo (9007199254740993 : Nat) x ∧
        ∀ y : Binary64, y.negative = false → Binary64.RoundsTo (9007199254740993 : Nat) y → y = x) ∧
    ∃ digits : String, Nat.ofDigits 10 (digits.toList.reverse.map Decimal.digitValue) =
        2 ^ 1024 - 2 ^ 970 ∧
      scan digits = [.invalid (.syntaxError ⟨1, 1⟩ "Failed to parse number"),
        .endOfFile ⟨1, 1 + digits.length⟩] := by
  constructor
  · have hdigits : "0009007199254740993".toList.all Decimal.isDigit = true := by decide +kernel
    exact (scan_digits (by decide) (List.all_eq_true.1 hdigits) (by decide +kernel)).2
      (by decide +kernel)
  · obtain ⟨digits, htext⟩ :
        ∃ digits : String, digits.toList = Decimal.toDigits (2 ^ 1024 - 2 ^ 970) :=
      ⟨_, String.toList_ofList⟩
    have hvalue : Nat.ofDigits 10 (digits.toList.reverse.map Decimal.digitValue) =
        2 ^ 1024 - 2 ^ 970 := by
      rw [← Decimal.ofDigits_eq, htext, Decimal.ofDigits_toDigits]
    refine ⟨digits, hvalue, (scan_digits ?_ ?_ hvalue.symm).1.2 (Nat.le_refl _)⟩
    · rintro rfl
      exact Decimal.toDigits_ne_nil _ htext.symm
    · rw [htext]
      exact fun c => Decimal.isDigit_of_mem_toDigits

end Token

end ExprLang
