import ExprLang.Proofs.LiteralTexts
import Mathlib.Logic.Relation

/-! # Quoted texts

Between its quotes every text is one string literal, whatever characters it is made of; the literal
holds the text itself unless some character is written as its number. Two texts are quoted alike
exactly if one becomes the other by trades: a number has no mark at its end, so a character with a
longer number can stand for one with a shorter number and the digits that are left. Numbers of four
digits leave no room for that. -/

namespace ExprLang

namespace Text

/-! ### What is read back -/

theorem length_le_length_spelledOut (cs : List Char) :
    cs.length ≤ (cs.flatMap spelledOut).length := by
  induction cs with
  | nil => exact Nat.le_refl 0
  | cons c cs ih =>
    have hpos : 1 ≤ (spelledOut c).length := by
      rw [spelledOut]
      split
      · exact Nat.le_refl 1
      · exact Nat.succ_pos _
    rw [List.flatMap_cons, List.length_append, List.length_cons]
    omega

theorem spelledOut_eq_self_iff (cs : List Char) :
    cs.flatMap spelledOut = cs ↔ ∀ c ∈ cs, isQuotable c = true := by
  induction cs with
  | nil => simp
  | cons c cs ih =>
    rw [List.flatMap_cons, List.forall_mem_cons, spelledOut]
    cases hquotable : isQuotable c with
    | true =>
      rw [if_pos rfl, List.singleton_append, List.cons_inj_right, ih]
      simp
    | false =>
      have hlength := length_le_length_spelledOut cs
      refine ⟨fun heq => ?_, fun h => absurd h.1 Bool.false_ne_true⟩
      have hlonger := congrArg List.length heq
      simp only [Bool.false_eq_true, if_false, List.length_append, List.length_cons] at hlonger
      omega

theorem newline_notMem_quote (text : String) : '\n' ∉ (quote text).toList := by
  rw [quote, String.toList_ofList]
  intro hmem
  exact absurd (unbroken_quoteChars text.toList '\n' hmem) (by decide)

end Text

/-- A quoted text is scanned as one string literal, and nothing is recorded. The literal holds the
text with the numbers of its characters spelled out, which is the text itself exactly if no character
is written as its number. -/
theorem Token.scan_quote (text : String) :
    scan (Text.quote text) =
        [.literal (.string (String.ofList (text.toList.flatMap Text.spelledOut))) ⟨1, 1⟩,
          .endOfFile ⟨1, 1 + (Text.quote text).length⟩] ∧
      (∀ log, (scanInto log (Text.quote text)).2 = log) ∧
      (String.ofList (text.toList.flatMap Text.spelledOut) = text ↔
        ∀ c ∈ text.toList, Text.isPrintable c = true ∨ c = '\n' ∨ c = '\t') := by
  have hreads := Lexeme.readsAs_quote (Lexeme.unescapes_spelledOut text.toList) ⟨1, 1⟩
  have hscan := scan_of_readsAs hreads (Text.newline_notMem_quote text)
  refine ⟨hscan, fun log => ?_, ?_⟩
  · have hfaults : faults (scan (Text.quote text)) = [] := by
      rw [hscan]
      rfl
    simp [scanInto, hfaults, DiagnosticLog.append]
  · rw [← String.toList_inj, String.toList_ofList, Text.spelledOut_eq_self_iff]
    simp [Text.isQuotable, or_assoc]

namespace Text

/-! ### The digits of a code point -/

def hexValue (cs : List Char) : Nat :=
  cs.foldl (fun n c => 16 * n + "0123456789abcdef".toList.idxOf c) 0

theorem hexValue_toDigits (n : Nat) : hexValue (Nat.toDigits 16 n) = n := by
  have hdigit : ∀ k < 16, "0123456789abcdef".toList.idxOf k.digitChar = k := by decide
  induction n using Nat.strongRecOn with
  | ind n ih =>
    by_cases hsmall : n < 16
    · rw [Nat.toDigits_of_lt_base hsmall]
      exact (Nat.zero_add _).trans (hdigit n hsmall)
    · have hfirst := ih (n / 16) (by omega)
      rw [hexValue] at hfirst
      rw [Nat.toDigits_of_base_le (by decide) (by omega), hexValue, List.foldl_append, hfirst,
        List.foldl_cons, List.foldl_nil, hdigit (n % 16) (by omega)]
      omega

theorem hexValue_hexadecimal (width n : Nat) : hexValue (hexadecimal width n) = n := by
  have hzeros (k : Nat) (cs : List Char) : hexValue (List.replicate k '0' ++ cs) = hexValue cs := by
    induction k with
    | zero => rfl
    | succ k ih => exact ih
  rw [hexadecimal, hzeros, hexValue_toDigits]

theorem length_hexadecimal {n : Nat} (h : n < 0x10000) : (hexadecimal 4 n).length = 4 := by
  have hdigits : (Nat.toDigits 16 n).length ≤ 4 :=
    (Nat.length_toDigits_le_iff (by decide) (by decide)).2 h
  rw [hexadecimal, List.length_append, List.length_replicate]
  omega

theorem flatMap_escape_digits {ds : List Char} (h : ∀ c ∈ ds, ∃ k < 16, c = k.digitChar) :
    ds.flatMap escape = ds := by
  have hself : ∀ k < 16, escape k.digitChar = [k.digitChar] := by decide +kernel
  induction ds with
  | nil => rfl
  | cons c ds ih =>
    obtain ⟨hc, hds⟩ := List.forall_mem_cons.1 h
    obtain ⟨k, hk, rfl⟩ := hc
    rw [List.flatMap_cons, ih hds, hself k hk]
    rfl

/-! ### Texts that are quoted alike -/

/-- `Extends c d ds`: both characters are written as their numbers, and that of `d` goes on with `ds`
after that of `c`. -/
structure Extends (c d : Char) (ds : List Char) : Prop where
  shorter : isQuotable c = false
  longer : isQuotable d = false
  digits : hexadecimal 4 d.toNat = hexadecimal 4 c.toNat ++ ds

/-- `Trades s t`: in one place a character of `t` stands for another one of `s` and the digits after
it. -/
inductive Trades : List Char → List Char → Prop
  | here {c d : Char} {ds : List Char} (rest : List Char) :
    Extends c d ds → Trades (c :: (ds ++ rest)) (d :: rest)
  | cons (c : Char) {s t : List Char} : Trades s t → Trades (c :: s) (c :: t)

namespace Extends

variable {c d : Char} {ds : List Char}

theorem escape_eq (h : Extends c d ds) : escape d = escape c ++ ds.flatMap escape := by
  have hdigits : ∀ e ∈ ds, ∃ k < 16, e = k.digitChar := by
    intro e he
    have hmem : e ∈ hexadecimal 4 d.toNat := by
      rw [h.digits]
      exact List.mem_append_right _ he
    exact exists_digitChar_of_mem_hexadecimal hmem
  rw [flatMap_escape_digits hdigits, escape_of_not_quotable h.longer,
    escape_of_not_quotable h.shorter, h.digits]
  rfl

theorem eq_of_four_digits (h : Extends c d ds) (hc : c.toNat < 0x10000) (hd : d.toNat < 0x10000) :
    ds = [] ∧ c = d := by
  have hlength := congrArg List.length h.digits
  rw [List.length_append, length_hexadecimal hc, length_hexadecimal hd] at hlength
  obtain rfl : ds = [] := List.eq_nil_of_length_eq_zero (by omega)
  have hvalue := congrArg hexValue h.digits
  rw [List.append_nil, hexValue_hexadecimal, hexValue_hexadecimal] at hvalue
  exact ⟨rfl, Char.toNat_inj.1 hvalue.symm⟩

end Extends

theorem Trades.flatMap_escape_eq {s t : List Char} (h : Trades s t) :
    s.flatMap escape = t.flatMap escape := by
  induction h with
  | here rest hextends =>
    rw [List.flatMap_cons, List.flatMap_cons, List.flatMap_append, hextends.escape_eq,
      List.append_assoc]
  | cons c _ ih => rw [List.flatMap_cons, List.flatMap_cons, ih]

/-- Reading two quoted texts side by side: their characters agree, or the digits that a longer number
has left over are read next in the other text. -/
inductive Alike : List Char → List Char → Prop
  | nil : Alike [] []
  | cons (c : Char) {s t : List Char} : Alike s t → Alike (c :: s) (c :: t)
  | left {c d : Char} {ds s t : List Char} :
    Extends c d ds → Alike s (ds ++ t) → Alike (c :: s) (d :: t)
  | right {c d : Char} {ds s t : List Char} :
    Extends c d ds → Alike (ds ++ s) t → Alike (d :: s) (c :: t)

theorem escape_ne_nil (c : Char) : escape c ≠ [] := by
  intro hnil
  cases hquotable : isQuotable c with
  | false => simp [escape_of_not_quotable hquotable] at hnil
  | true =>
    rcases Lexeme.escape_of_isQuotable hquotable with ⟨hself, -⟩ | ⟨e, hescape, -⟩
    · simp [hself] at hnil
    · simp [hescape] at hnil

theorem escape_append_ne {c : Char} (hc : isQuotable c = true) (x y : List Char) :
    escape c ++ x ≠ '\\' :: 'u' :: y := by
  intro heq
  rcases Lexeme.escape_of_isQuotable hc with ⟨hself, -, hbackslash⟩ | ⟨e, hescape, hread⟩
  · rw [hself] at heq
    exact hbackslash (List.cons.inj heq).1
  · rw [hescape] at heq
    obtain rfl : e = 'u' := (List.cons.inj (List.cons.inj heq).2).1
    simp [Lexeme.unescape] at hread

theorem escape_append_inj {c d : Char} (hc : isQuotable c = true) (hd : isQuotable d = true)
    {x y : List Char} (heq : escape c ++ x = escape d ++ y) : c = d ∧ x = y := by
  rcases Lexeme.escape_of_isQuotable hc with ⟨hc, -, hcb⟩ | ⟨e, hc, hce⟩
  · rcases Lexeme.escape_of_isQuotable hd with ⟨hd, -, hdb⟩ | ⟨f, hd, hdf⟩
    · rw [hc, hd] at heq
      exact List.cons.inj heq
    · rw [hc, hd] at heq
      exact absurd (List.cons.inj heq).1 hcb
  · rcases Lexeme.escape_of_isQuotable hd with ⟨hd, -, hdb⟩ | ⟨f, hd, hdf⟩
    · rw [hc, hd] at heq
      exact absurd (List.cons.inj heq).1.symm hdb
    · rw [hc, hd] at heq
      obtain ⟨rfl, htail⟩ := List.cons.inj (List.cons.inj heq).2
      rw [hce] at hdf
      exact ⟨(List.cons.inj hdf).1, htail⟩

/-- Of two numbers in the same place one goes on after the other. -/
theorem extends_of_escape_append {c d : Char} (hc : isQuotable c = false)
    (hd : isQuotable d = false) {x y : List Char} (heq : escape c ++ x = escape d ++ y) :
    (∃ ds, Extends c d ds ∧ x = ds.flatMap escape ++ y) ∨
      ∃ ds, Extends d c ds ∧ y = ds.flatMap escape ++ x := by
  have hnumbers : hexadecimal 4 c.toNat ++ x = hexadecimal 4 d.toNat ++ y := by
    rw [escape_of_not_quotable hc, escape_of_not_quotable hd] at heq
    exact (List.cons.inj (List.cons.inj heq).2).2
  rcases List.append_eq_append_iff.1 hnumbers with ⟨ds, hds, -⟩ | ⟨ds, hds, -⟩
  · have hextends : Extends c d ds := ⟨hc, hd, hds⟩
    rw [hextends.escape_eq, List.append_assoc] at heq
    exact .inl ⟨ds, hextends, List.append_cancel_left heq⟩
  · have hextends : Extends d c ds := ⟨hd, hc, hds⟩
    rw [hextends.escape_eq, List.append_assoc] at heq
    exact .inr ⟨ds, hextends, (List.append_cancel_left heq).symm⟩

theorem alike_of_flatMap_escape_eq {s t : List Char} (h : s.flatMap escape = t.flatMap escape) :
    Alike s t := by
  induction hn : (s.flatMap escape).length using Nat.strongRecOn generalizing s t with
  | ind n ih =>
    cases s with
    | nil =>
      cases t with
      | nil => exact .nil
      | cons d t => simp [escape_ne_nil] at h
    | cons c s =>
      cases t with
      | nil => simp [escape_ne_nil] at h
      | cons d t =>
        have hpos := List.length_pos_iff.2 (escape_ne_nil c)
        rw [List.flatMap_cons, List.length_append] at hn
        rw [List.flatMap_cons, List.flatMap_cons] at h
        cases hc : isQuotable c with
        | true =>
          cases hd : isQuotable d with
          | true =>
            obtain ⟨rfl, htail⟩ := escape_append_inj hc hd h
            exact .cons c (ih _ (by omega) htail rfl)
          | false =>
            rw [escape_of_not_quotable hd] at h
            exact absurd h (escape_append_ne hc _ _)
        | false =>
          cases hd : isQuotable d with
          | true =>
            rw [escape_of_not_quotable hc] at h
            exact absurd h.symm (escape_append_ne hd _ _)
          | false =>
            rcases extends_of_escape_append hc hd h with ⟨ds, hextends, hx⟩ | ⟨ds, hextends, hy⟩
            · rw [← List.flatMap_append] at hx
              exact .left hextends (ih _ (by omega) hx rfl)
            · rw [← List.flatMap_append] at hy
              have hshorter : ((ds ++ s).flatMap escape).length < n := by
                have hlength := congrArg List.length h
                have hdpos := List.length_pos_iff.2 (escape_ne_nil d)
                rw [List.length_append, List.length_append, hy] at hlength
                omega
              exact .right hextends (ih _ hshorter hy.symm rfl)

theorem Trades.eqvGen_cons (c : Char) {s t : List Char} (h : Relation.EqvGen Trades s t) :
    Relation.EqvGen Trades (c :: s) (c :: t) := by
  induction h with
  | rel s t htrades => exact .rel _ _ (.cons c htrades)
  | refl s => exact .refl _
  | symm s t _ ih => exact .symm _ _ ih
  | trans s t u _ _ ih₁ ih₂ => exact .trans _ _ _ ih₁ ih₂

theorem Alike.eqvGen {s t : List Char} (h : Alike s t) : Relation.EqvGen Trades s t := by
  induction h with
  | nil => exact .refl _
  | cons c _ ih => exact Trades.eqvGen_cons c ih
  | left hextends _ ih =>
    exact .trans _ _ _ (Trades.eqvGen_cons _ ih) (.rel _ _ (.here _ hextends))
  | right hextends _ ih =>
    exact .trans _ _ _ (.symm _ _ (.rel _ _ (.here _ hextends))) (Trades.eqvGen_cons _ ih)

theorem flatMap_escape_eq_iff (s t : List Char) :
    s.flatMap escape = t.flatMap escape ↔ Relation.EqvGen Trades s t := by
  constructor
  · intro h
    exact (alike_of_flatMap_escape_eq h).eqvGen
  · intro h
    induction h with
    | rel s t htrades => exact htrades.flatMap_escape_eq
    | refl s => rfl
    | symm s t _ ih => exact ih.symm
    | trans s t u _ _ ih₁ ih₂ => exact ih₁.trans ih₂

def FourDigits (cs : List Char) : Prop := ∀ c ∈ cs, isQuotable c = false → c.toNat < 0x10000

theorem Alike.eq_of_fourDigits {s t : List Char} (h : Alike s t) (hs : FourDigits s)
    (ht : FourDigits t) : s = t := by
  induction h with
  | nil => rfl
  | cons c _ ih =>
    rw [ih (List.forall_mem_cons.1 hs).2 (List.forall_mem_cons.1 ht).2]
  | left hextends _ ih =>
    obtain ⟨hc, hsrest⟩ := List.forall_mem_cons.1 hs
    obtain ⟨hd, htrest⟩ := List.forall_mem_cons.1 ht
    obtain ⟨rfl, rfl⟩ :=
      hextends.eq_of_four_digits (hc hextends.shorter) (hd hextends.longer)
    rw [ih hsrest htrest, List.nil_append]
  | right hextends _ ih =>
    obtain ⟨hd, hsrest⟩ := List.forall_mem_cons.1 hs
    obtain ⟨hc, htrest⟩ := List.forall_mem_cons.1 ht
    obtain ⟨rfl, rfl⟩ :=
      hextends.eq_of_four_digits (hc hextends.shorter) (hd hextends.longer)
    rw [← ih hsrest htrest, List.nil_append]

theorem quote_eq_quote {s t : String} :
    quote s = quote t ↔ s.toList.flatMap escape = t.toList.flatMap escape := by
  rw [quote, quote, String.ofList_inj, quoteChars, quoteChars, List.cons_inj_right,
    List.append_cancel_right_eq]

/-- Two texts are quoted alike exactly if trades lead from one to the other; if all their numbers have
four digits, they are then the same text. -/
theorem quote_alike_iff (s t : String) :
    (quote s = quote t ↔ Relation.EqvGen Trades s.toList t.toList) ∧
      (FourDigits s.toList → FourDigits t.toList → quote s = quote t → s = t) := by
  rw [quote_eq_quote]
  refine ⟨flatMap_escape_eq_iff s.toList t.toList, fun hs ht heq => ?_⟩
  exact String.toList_inj.1 ((alike_of_flatMap_escape_eq heq).eq_of_fourDigits hs ht)

/-- A number of five digits looks like one of four and a digit, also in a dump. -/
theorem quote_not_injective :
    String.ofList [Char.ofNat 0xE0001] ≠ String.ofList ['\ue000', '1'] ∧
      quote (String.ofList [Char.ofNat 0xE0001]) = quote (String.ofList ['\ue000', '1']) ∧
      (Expr.literal (.string (String.ofList [Char.ofNat 0xE0001])) ⟨1, 1⟩).compact =
        (Expr.literal (.string (String.ofList ['\ue000', '1'])) ⟨1, 1⟩).compact := by
  decide +kernel

end Text

end ExprLang
