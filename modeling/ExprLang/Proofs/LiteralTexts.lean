import ExprLang.Proofs.ParserRun
import ExprLang.Proofs.Rendering

/-! # The texts of literals and operators

In a dump stand the texts of numbers, of quoted strings, of the void value and of operators. None of
them holds a character at which a line could be broken, whatever characters a string is made of. In
front of a closing parenthesis the text of a literal can be told from what follows, and in front of a
comma that of an operator. -/

namespace ExprLang

namespace Text

/-- The characters that may be taken for the end of a line. -/
def lineBreaks : List Char :=
  ['\n', '\x0b', '\x0c', '\r', '\x1c', '\x1d', '\x1e', '\u0085', '\u2028', '\u2029']

def isLineBreak (c : Char) : Bool := lineBreaks.contains c

/-- The characters that numbers are written with, in any base. -/
def isPlain (c : Char) : Bool := c.isAlphanum || c == '.' || c == '+' || c == '-'

def Plain (cs : List Char) : Prop := ∀ c ∈ cs, isPlain c = true

def Unbroken (cs : List Char) : Prop := ∀ c ∈ cs, isLineBreak c = false

theorem isLineBreak_of_excluded {p : Char → Bool} (hp : lineBreaks.all (!p ·) = true) {c : Char}
    (h : p c = true) : isLineBreak c = false := by
  cases hbreak : isLineBreak c with
  | false => rfl
  | true =>
    have hnot := List.all_eq_true.1 hp c (List.contains_iff_mem.1 hbreak)
    rw [h] at hnot
    exact absurd hnot Bool.false_ne_true

theorem Plain.of_all {cs : List Char} (h : cs.all isPlain = true) : Plain cs :=
  List.all_eq_true.1 h

theorem Unbroken.of_all {cs : List Char} (h : cs.all (!isLineBreak ·) = true) : Unbroken cs := by
  intro c hc
  simpa using List.all_eq_true.1 h c hc

theorem Plain.append {cs ds : List Char} (hcs : Plain cs) (hds : Plain ds) : Plain (cs ++ ds) :=
  List.forall_mem_append.2 ⟨hcs, hds⟩

theorem Plain.cons {c : Char} {cs : List Char} (hc : isPlain c = true) (hcs : Plain cs) :
    Plain (c :: cs) :=
  List.forall_mem_cons.2 ⟨hc, hcs⟩

theorem ne_of_isPlain {c d : Char} (hc : isPlain c = true) (hd : isPlain d = false) : c ≠ d := by
  rintro rfl
  rw [hc] at hd
  exact absurd hd Bool.false_ne_true.symm

theorem Plain.unbroken {cs : List Char} (h : Plain cs) : Unbroken cs :=
  fun c hc => isLineBreak_of_excluded (by decide) (h c hc)

theorem Unbroken.append {cs ds : List Char} (hcs : Unbroken cs) (hds : Unbroken ds) :
    Unbroken (cs ++ ds) :=
  List.forall_mem_append.2 ⟨hcs, hds⟩

end Text

open Text (Plain Unbroken isPlain isLineBreak)

/-! ### Numbers -/

namespace Decimal

theorem plain_toDigits (n : Nat) : Plain (toDigits n) := by
  intro c hc
  have hdigit : c.isDigit = true := Nat.isDigit_of_mem_toDigits (by decide) (by decide) hc
  simp [isPlain, Char.isAlphanum, hdigit]

theorem plain_zeros (n : Nat) : Plain (zeros n) := by
  intro c hc
  rw [List.eq_of_mem_replicate hc]
  rfl

theorem plain_exponentText (e : Int) : Plain (exponentText e) := by
  have hdigits := (plain_zeros (2 - (toDigits e.natAbs).length)).append (plain_toDigits e.natAbs)
  refine .cons ?_ hdigits
  split <;> rfl

theorem plain_positional {digits : List Char} (h : Plain digits) (point : Int) :
    Plain (positional digits point) := by
  unfold positional
  split
  · exact .cons rfl (.cons rfl h)
  · next n _ =>
    split
    · have htake : Plain (digits.take n) := fun c hc => h c (List.mem_of_mem_take hc)
      have hdrop : Plain (digits.drop n) := fun c hc => h c (List.mem_of_mem_drop hc)
      exact htake.append (.cons rfl hdrop)
    · exact (h.append (plain_zeros _)).append (.of_all rfl)
  · exact .cons rfl (.cons rfl ((plain_zeros _).append h))

theorem plain_scientific {digits : List Char} (h : Plain digits) (exponent : Int) :
    Plain (scientific digits exponent) := by
  have hexponent : Plain ('e' :: exponentText exponent) := .cons rfl (plain_exponentText exponent)
  unfold scientific
  split
  · exact h
  · exact h.append hexponent
  · next d ds _ =>
    obtain ⟨hd, hds⟩ := List.forall_mem_cons.1 h
    exact .cons hd (.cons rfl (Plain.append hds hexponent))

theorem plain_layout (d : Decimal) : Plain d.layout := by
  have hdigits : Plain (dropTrailingZeros (toDigits d.digits)) := by
    intro c hc
    have hreverse := (List.dropWhile_sublist _).subset (List.mem_reverse.1 hc)
    exact plain_toDigits d.digits c (List.mem_reverse.1 hreverse)
  simp only [layout]
  split
  · exact plain_positional hdigits _
  · exact plain_scientific hdigits _

end Decimal

namespace Binary64

theorem plain_signed (x : Binary64) {text : List Char} (h : Plain text) : Plain (x.signed text) := by
  unfold signed
  split
  · exact .cons rfl h
  · exact h

theorem plain_print (x : Binary64) : Plain x.print.toList := by
  have hnan : Plain "NaN".toList := .of_all rfl
  have hinfinity : Plain "inf".toList := .of_all rfl
  unfold print
  split
  · exact hnan
  split
  · rw [String.toList_ofList]
    exact plain_signed x hinfinity
  split
  · rw [String.toList_ofList]
    exact plain_signed x (Decimal.plain_toDigits _)
  · rw [String.toList_ofList]
    exact plain_signed x (Decimal.plain_layout _)

end Binary64

/-! ### Quoted strings -/

namespace Text

theorem exists_digitChar_of_mem_toDigits {c : Char} {n : Nat} (h : c ∈ Nat.toDigits 16 n) :
    ∃ k < 16, c = k.digitChar := by
  induction n using Nat.strongRecOn with
  | ind n ih =>
    by_cases hsmall : n < 16
    · rw [Nat.toDigits_of_lt_base hsmall] at h
      exact ⟨n, hsmall, List.mem_singleton.1 h⟩
    · rw [Nat.toDigits_of_base_le (by decide) (by omega), List.mem_append] at h
      rcases h with hfirst | hlast
      · exact ih (n / 16) (by omega) hfirst
      · exact ⟨n % 16, by omega, List.mem_singleton.1 hlast⟩

theorem exists_digitChar_of_mem_hexadecimal {c : Char} {width n : Nat}
    (h : c ∈ hexadecimal width n) : ∃ k < 16, c = k.digitChar := by
  rcases List.mem_append.1 h with hfill | hdigits
  · exact ⟨0, by decide, List.eq_of_mem_replicate hfill⟩
  · exact exists_digitChar_of_mem_toDigits hdigits

theorem isPlain_digitChar : ∀ n < 16, isPlain n.digitChar = true := by decide

theorem plain_hexadecimal (width n : Nat) : Plain (hexadecimal width n) := by
  intro c hc
  obtain ⟨k, hk, rfl⟩ := exists_digitChar_of_mem_hexadecimal hc
  exact isPlain_digitChar k hk

theorem escape_of_not_quotable {c : Char} (h : isQuotable c = false) :
    escape c = '\\' :: 'u' :: hexadecimal 4 c.toNat := by
  simp only [isQuotable, Bool.or_eq_false_iff, beq_eq_false_iff_ne] at h
  obtain ⟨⟨hprintable, hnewline⟩, htab⟩ := h
  have hquote : c ≠ '"' := by
    rintro rfl
    exact absurd hprintable (by decide +kernel)
  have hbackslash : c ≠ '\\' := by
    rintro rfl
    exact absurd hprintable (by decide +kernel)
  simp [escape, hquote, hbackslash, hnewline, htab, hprintable]

/-- What reading gives for the escape of a character: the character, or the text of its number, which
reading does not undo. -/
def spelledOut (c : Char) : List Char :=
  if isQuotable c then [c] else '\\' :: 'u' :: hexadecimal 4 c.toNat

theorem unbroken_escape (c : Char) : Unbroken (escape c) := by
  cases hquotable : isQuotable c with
  | false =>
    rw [escape_of_not_quotable hquotable]
    have hstart : Unbroken ['\\', 'u'] := .of_all rfl
    exact hstart.append (plain_hexadecimal 4 c.toNat).unbroken
  | true =>
    unfold escape
    split
    · exact .of_all rfl
    split
    · exact .of_all rfl
    split
    · exact .of_all rfl
    split
    · exact .of_all rfl
    split
    · next hprintable =>
      intro d hd
      rw [List.mem_singleton.1 hd]
      exact isLineBreak_of_excluded (by decide +kernel) hprintable
    · next hnewline htab hprintable =>
      simp [isQuotable, hnewline, htab, hprintable] at hquotable

theorem unbroken_quoteChars (cs : List Char) : Unbroken (quoteChars cs) := by
  have hbody : Unbroken (cs.flatMap escape) := by
    intro d hd
    obtain ⟨c, -, hescape⟩ := List.mem_flatMap.1 hd
    exact unbroken_escape c d hescape
  have hquote : Unbroken ['"'] := .of_all rfl
  exact hquote.append (hbody.append hquote)

end Text

namespace Lexeme

theorem Unescapes.plain_append {cs : List Char} (hcs : Plain cs) {body text : List Char}
    (h : Unescapes body text) : Unescapes (cs ++ body) (cs ++ text) := by
  induction cs with
  | nil => exact h
  | cons c cs ih =>
    obtain ⟨hc, hcs⟩ := List.forall_mem_cons.1 hcs
    exact .plain (Text.ne_of_isPlain hc rfl) (Text.ne_of_isPlain hc rfl) (ih hcs)

theorem unescapes_spelledOut (cs : List Char) :
    Unescapes (cs.flatMap Text.escape) (cs.flatMap Text.spelledOut) := by
  induction cs with
  | nil => exact .nil
  | cons c cs ih =>
    rw [List.flatMap_cons, List.flatMap_cons, Text.spelledOut]
    cases hquotable : Text.isQuotable c with
    | true => exact .escape_append hquotable ih
    | false =>
      rw [Text.escape_of_not_quotable hquotable]
      exact .escape (.plain_append (Text.plain_hexadecimal 4 c.toNat) ih)

end Lexeme

/-! ### Telling a text from what follows -/

namespace Literal

def cut : List Char → List Char × List Char
  | '"' :: cs =>
    match Lexeme.stringBody? cs with
    | some (_, used, rest) => ('"' :: used, rest)
    | none => ([], '"' :: cs)
  | '(' :: ')' :: cs => (['(', ')'], cs)
  | cs => (cs.takeWhile isPlain, cs.dropWhile isPlain)

theorem cut_plain {cs : List Char} (h : Plain cs) (rest : List Char) :
    cut (cs ++ ')' :: rest) = (cs, ')' :: rest) := by
  have hfirst : ∀ c, (cs ++ ')' :: rest).head? = some c → c ≠ '"' ∧ c ≠ '(' := by
    intro c hc
    cases cs with
    | nil =>
      rw [← Option.some.inj hc]
      decide
    | cons d cs =>
      rw [← Option.some.inj hc]
      have hd := (List.forall_mem_cons.1 h).1
      exact ⟨Text.ne_of_isPlain hd rfl, Text.ne_of_isPlain hd rfl⟩
  have hsplit : cut (cs ++ ')' :: rest) =
      ((cs ++ ')' :: rest).takeWhile isPlain, (cs ++ ')' :: rest).dropWhile isPlain) := by
    rw [cut]
    · exact fun d heq => (hfirst '"' (congrArg List.head? heq)).1 rfl
    · exact fun d heq => (hfirst '(' (congrArg List.head? heq)).2 rfl
  rw [hsplit, List.takeWhile_append_of_pos h, List.dropWhile_append_of_pos h]
  simp [isPlain]

theorem cut_sourceText {l : Literal} (h : l.isOperand = true) (rest : List Char) :
    cut (l.sourceText.toList ++ ')' :: rest) = (l.sourceText.toList, ')' :: rest) := by
  cases l with
  | identifier => simp [isOperand] at h
  | number x => exact cut_plain x.plain_print rest
  | void => rfl
  | string text =>
    have hread := Lexeme.unescapes_spelledOut text.toList
    have hbody := Lexeme.stringBody?_of_unescapes hread (')' :: rest)
    simp only [sourceText, Text.quote, Text.quoteChars, String.toList_ofList, List.cons_append,
      List.append_assoc, List.nil_append]
    rw [cut, hbody]

theorem sourceText_append_inj {l l' : Literal} (h : l.isOperand = true) (h' : l'.isOperand = true)
    {x y : List Char}
    (heq : l.sourceText.toList ++ ')' :: x = l'.sourceText.toList ++ ')' :: y) :
    l.sourceText = l'.sourceText ∧ x = y := by
  have hcut := congrArg cut heq
  rw [cut_sourceText h, cut_sourceText h'] at hcut
  obtain ⟨htext, hrest⟩ := Prod.mk.inj hcut
  exact ⟨String.toList_inj.1 htext, (List.cons.inj hrest).2⟩

theorem unbroken_sourceText {l : Literal} (h : l.isOperand = true) :
    Unbroken l.sourceText.toList := by
  cases l with
  | identifier => simp [isOperand] at h
  | number x => exact x.plain_print.unbroken
  | void => exact .of_all rfl
  | string text =>
    rw [sourceText, Text.quote, String.toList_ofList]
    exact Text.unbroken_quoteChars text.toList

end Literal

namespace Symbol

def cut : List Char → List Char × List Char
  | a :: ',' :: cs => ([a], ',' :: cs)
  | a :: b :: cs => ([a, b], cs)
  | cs => (cs, [])

theorem cut_text (s : Symbol) (rest : List Char) :
    cut (s.text.toList ++ ',' :: rest) = (s.text.toList, ',' :: rest) := by
  cases s <;> rfl

theorem ofText?_text (s : Symbol) : ofText? s.text = some s := by
  cases s <;> rfl

theorem text_inj {s s' : Symbol} (h : s.text = s'.text) : s = s' := by
  have hread := congrArg ofText? h
  rw [ofText?_text, ofText?_text] at hread
  exact Option.some.inj hread

theorem text_append_inj {s s' : Symbol} {x y : List Char}
    (heq : s.text.toList ++ ',' :: x = s'.text.toList ++ ',' :: y) : s = s' ∧ x = y := by
  have hcut := congrArg cut heq
  rw [cut_text, cut_text] at hcut
  obtain ⟨htext, hrest⟩ := Prod.mk.inj hcut
  exact ⟨text_inj (String.toList_inj.1 htext), (List.cons.inj hrest).2⟩

theorem unbroken_text (s : Symbol) : Unbroken s.text.toList := by
  cases s <;> exact .of_all rfl

end Symbol

end ExprLang
