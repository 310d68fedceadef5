import ExprLang.Proofs.Trivia
import ExprLang.Token.Scanner
import Mathlib.Data.List.TakeWhile

/-! # What lexemes spell

A lexeme is a slice of the source together with its token. The slice spells the token by rules that
do not mention how it was read, and it is as long as possible: no word, number, symbol or comment
goes on with it. -/

namespace ExprLang

def Symbol.scannable : List Symbol :=
  [.leftParen, .rightParen, .leftSquare, .rightSquare, .leftCurly, .rightCurly, .comma, .period,
    .colon, .semicolon, .apostrophe, .plus, .minus, .asterisk, .slash, .exclamation, .less,
    .greater, .equals, .ampersand, .caret, .doubleEquals, .plusEquals, .minusEquals,
    .asteriskEquals, .slashEquals, .exclamationEquals, .lessEquals, .greaterEquals, .rightArrow,
    .ampersandEquals, .caretEquals]

namespace Lexeme

/-! ### What a slice of a source spells -/

/-- `Unescapes body text`: between quotes, `body` stands for `text`. -/
inductive Unescapes : List Char → List Char → Prop
  | nil : Unescapes [] []
  | plain {c : Char} {body text : List Char} :
    c ≠ '"' → c ≠ '\\' → Unescapes body text → Unescapes (c :: body) (c :: text)
  | escape {c : Char} {body text : List Char} :
    Unescapes body text → Unescapes ('\\' :: c :: body) (unescape c ++ text)

/-- A character that starts nothing that a source can hold. -/
structure Unrecognised (c : Char) : Prop where
  notBlank : Text.isBlank c = false
  notWord : isWordStart c = false
  notDigit : Decimal.isDigit c = false
  notQuote : c ≠ '"'
  notSymbol : ∀ s ∈ Symbol.scannable, s.text.toList.head? ≠ some c

/-- `Spells pos eof text rest t`: a slice `text` that starts at `pos` and is followed by `rest` is the
token `t` of a source that ends at `eof`. -/
inductive Spells (pos eof : Position) : List Char → List Char → Token → Prop
  | symbol {s : Symbol} {rest : List Char} :
    s ∈ Symbol.scannable → Spells pos eof s.text.toList rest (.symbol s pos)
  | keyword {k : Keyword} {rest : List Char} : Spells pos eof k.text.toList rest (.keyword k pos)
  | voidWord {rest : List Char} : Spells pos eof "void".toList rest (.literal .void pos)
  | voidPair {rest : List Char} : Spells pos eof "()".toList rest (.literal .void pos)
  | identifier {c : Char} {cs rest : List Char} :
    isWordStart c = true → (∀ d ∈ cs, isWordPart d = true) →
      String.ofList (c :: cs) ≠ "void" → (∀ k : Keyword, k.text ≠ String.ofList (c :: cs)) →
      Spells pos eof (c :: cs) rest (.literal (.identifier (String.ofList (c :: cs))) pos)
  | number {digits rest : List Char} :
    digits ≠ [] → (∀ d ∈ digits, Decimal.isDigit d = true) →
      (Binary64.ofNat (Decimal.ofDigits digits)).isFinite = true →
      Spells pos eof digits rest (.literal (.number (Binary64.ofNat (Decimal.ofDigits digits))) pos)
  | string {body text rest : List Char} :
    Unescapes body text →
      Spells pos eof ('"' :: (body ++ ['"'])) rest (.literal (.string (String.ofList text)) pos)
  | unknown {c : Char} {rest : List Char} :
    Unrecognised c → Spells pos eof [c] rest (.invalid (.unknownToken pos (String.singleton c)))
  | overflow {digits rest : List Char} :
    digits ≠ [] → (∀ d ∈ digits, Decimal.isDigit d = true) →
      (Binary64.ofNat (Decimal.ofDigits digits)).isFinite = false →
      Spells pos eof digits rest (.invalid (.syntaxError pos "Failed to parse number"))
  | unterminated {cs : List Char} :
    (∀ body text rest, Unescapes body text → cs ≠ body ++ '"' :: rest) →
      Spells pos eof ('"' :: cs) [] (.invalid (.unterminatedString eof))

theorem Spells.ne_endOfFile {pos eof : Position} {text rest : List Char} {t : Token}
    (h : Spells pos eof text rest t) (p : Position) : t ≠ .endOfFile p := by
  cases h <;> simp

/-- A slice is as long as possible: what follows it cannot go on with it. -/
structure Maximal (text rest : List Char) (t : Token) : Prop where
  word : ∀ c d, text.head? = some c → isWordStart c = true → rest.head? = some d →
    isWordPart d = false
  number : ∀ c d, text.head? = some c → Decimal.isDigit c = true → rest.head? = some d →
    Decimal.isDigit d = false
  symbol : ∀ s pos d, t = .symbol s pos → rest.head? = some d →
    ∀ longer ∈ Symbol.scannable, longer.text.toList ≠ text ++ [d]
  void : text = ['('] → rest.head? ≠ some ')'
  comment : text = ['/'] → rest.head? ≠ some '/'

/-! ### Symbols -/

theorem compounds?_eq_none_of_ofChar? {c : Char} {s : Symbol} (h : Symbol.ofChar? c = some s) :
    Symbol.compounds? c = none := by
  unfold Symbol.ofChar? at h
  split at h
  all_goals first | rfl | simp at h

theorem text_of_ofChar? {c : Char} {s : Symbol} (h : Symbol.ofChar? c = some s) :
    s ∈ Symbol.scannable ∧ s.text.toList = [c] := by
  unfold Symbol.ofChar? at h
  split at h
  all_goals cases h
  all_goals exact ⟨by decide, rfl⟩

theorem text_of_compounds? {c : Char} {single : Symbol} {pairs : List (Char × Symbol)}
    (h : Symbol.compounds? c = some (single, pairs)) :
    (single ∈ Symbol.scannable ∧ single.text.toList = [c]) ∧
      ∀ pair ∈ pairs, pair.2 ∈ Symbol.scannable ∧ pair.2.text.toList = [c, pair.1] := by
  unfold Symbol.compounds? at h
  split at h
  all_goals cases h
  all_goals exact ⟨⟨by decide, rfl⟩, by decide⟩

/-- Every symbol of a source stands in a table, under the characters that spell it. -/
theorem scannable_cases {s : Symbol} (h : s ∈ Symbol.scannable) :
    s.text.toList = ['('] ∨ (∃ c, s.text.toList = [c] ∧ Symbol.ofChar? c = some s) ∨
      (∃ c pairs, s.text.toList = [c] ∧ Symbol.compounds? c = some (s, pairs)) ∨
      (∃ c d single pairs, s.text.toList = [c, d] ∧
        Symbol.compounds? c = some (single, pairs) ∧ pairs.lookup d = some s) := by
  cases s
  all_goals first
    | exact absurd h (by decide)
    | exact .inl rfl
    | exact .inr (.inl ⟨_, rfl, rfl⟩)
    | exact .inr (.inr (.inl ⟨_, _, rfl, rfl⟩))
    | exact .inr (.inr (.inr ⟨_, _, _, _, rfl, rfl, rfl⟩))

theorem lookup_of_text {s : Symbol} (h : s ∈ Symbol.scannable) {c d : Char}
    (htext : s.text.toList = [c, d]) :
    ∃ single pairs, Symbol.compounds? c = some (single, pairs) ∧ pairs.lookup d = some s := by
  rcases scannable_cases h with hs | ⟨_, hs, _⟩ | ⟨_, _, hs, _⟩ | ⟨c', d', single, pairs, hs, hrow⟩
  · simp [hs] at htext
  · simp [hs] at htext
  · simp [hs] at htext
  · rw [hs] at htext
    simp only [List.cons.injEq, and_true] at htext
    obtain ⟨rfl, rfl⟩ := htext
    exact ⟨single, pairs, hrow⟩

theorem head?_text_ne {c : Char} (hparen : c ≠ '(') (hsingle : Symbol.ofChar? c = none)
    (hcompound : Symbol.compounds? c = none) {s : Symbol} (h : s ∈ Symbol.scannable) :
    s.text.toList.head? ≠ some c := by
  intro hhead
  rcases scannable_cases h with hs | ⟨_, hs, hrow⟩ | ⟨_, _, hs, hrow⟩ | ⟨_, _, _, _, hs, hrow, _⟩
  all_goals simp only [hs, List.head?_cons, Option.some.injEq] at hhead
  · exact hparen hhead.symm
  · simp [hhead, hsingle] at hrow
  · simp [hhead, hcompound] at hrow
  · simp [hhead, hcompound] at hrow

theorem compound?_eq_some_iff {pairs : List (Char × Symbol)} {cs rest : List Char} {s : Symbol}
    {d : Char} : compound? pairs cs = some (s, d, rest) ↔ cs = d :: rest ∧ pairs.lookup d = some s := by
  cases cs with
  | nil => simp [compound?]
  | cons e cs =>
    simp only [compound?, Option.map_eq_some_iff, Prod.mk.injEq, List.cons.injEq]
    constructor
    · rintro ⟨_, hlookup, rfl, rfl, rfl⟩
      exact ⟨⟨rfl, rfl⟩, hlookup⟩
    · rintro ⟨⟨rfl, rfl⟩, hlookup⟩
      exact ⟨s, hlookup, rfl, rfl, rfl⟩

theorem text_ne_of_length {s : Symbol} (h : s ∈ Symbol.scannable) {text : List Char}
    (hlength : 2 < text.length) : s.text.toList ≠ text := by
  rintro rfl
  rcases scannable_cases h with hs | ⟨_, hs, _⟩ | ⟨_, _, hs, _⟩ | ⟨_, _, _, _, hs, _, _⟩
  all_goals simp [hs] at hlength

/-- A slice that starts no word and no number is as long as possible if no symbol, no void value and
no comment goes on with it. -/
theorem Maximal.of_symbol {c : Char} {text rest : List Char} {t : Token} (hhead : text.head? = some c)
    (hword : isWordStart c = false) (hdigit : Decimal.isDigit c = false)
    (hsymbol : ∀ d, rest.head? = some d → ∀ longer ∈ Symbol.scannable,
      longer.text.toList ≠ text ++ [d])
    (hvoid : text = ['('] → rest.head? ≠ some ')')
    (hcomment : text = ['/'] → rest.head? ≠ some '/') : Maximal text rest t where
  word := by
    intro c' d hc' hstart
    rw [hhead] at hc'
    simp [← Option.some.inj hc', hword] at hstart
  number := by
    intro c' d hc' hstart
    rw [hhead] at hc'
    simp [← Option.some.inj hc', hdigit] at hstart
  symbol := fun _ _ d _ => hsymbol d
  void := hvoid
  comment := hcomment

section Symbols

variable {c : Char} {cs : List Char} (hblank : Text.isBlank c = false)
  (hword : isWordStart c = false) (hdigit : Decimal.isDigit c = false)
  (hcomment : ¬ (c = '/' ∧ cs.head? = some '/'))

include hblank hword hdigit in
theorem symbol_spells (hquote : c ≠ '"') (pos eof : Position) :
    Spells pos eof (symbol pos c cs).text (symbol pos c cs).rest (symbol pos c cs).token := by
  unfold symbol
  split
  · split
    · exact .voidPair
    · next hparen _ _ =>
      subst hparen
      have hmem : Symbol.leftParen ∈ Symbol.scannable := by decide
      exact .symbol hmem
  · next hparen =>
    split
    · next s hs =>
      obtain ⟨hmem, htext⟩ := text_of_ofChar? hs
      rw [← htext]
      exact .symbol hmem
    · next single pairs hnone hrow =>
      obtain ⟨⟨hmem, htext⟩, hpairs⟩ := text_of_compounds? hrow
      split
      · next s d rest hcompound =>
        obtain ⟨-, hlookup⟩ := compound?_eq_some_iff.1 hcompound
        obtain ⟨before, after, hmem, -⟩ := List.lookup_eq_some_iff.1 hlookup
        obtain ⟨hmem, htext⟩ := hpairs (d, s) (by simp [hmem])
        rw [← htext]
        exact .symbol hmem
      · rw [← htext]
        exact .symbol hmem
    · next hsingle hcompound =>
      refine .unknown ⟨hblank, hword, hdigit, hquote, ?_⟩
      intro s hs
      exact head?_text_ne hparen hsingle hcompound hs

include hword hdigit hcomment in
theorem symbol_maximal (pos : Position) :
    Maximal (symbol pos c cs).text (symbol pos c cs).rest (symbol pos c cs).token := by
  have hslash : [c] = ['/'] → cs.head? ≠ some '/' := by
    intro htext hhead
    exact hcomment ⟨(List.cons.inj htext).1, hhead⟩
  unfold symbol
  split
  · next hparen =>
    subst hparen
    split
    · refine .of_symbol rfl hword hdigit ?_ (by simp) (by simp)
      exact fun d _ longer hlonger => text_ne_of_length hlonger (by simp)
    · next hnot =>
      refine .of_symbol rfl hword hdigit ?_ ?_ (by simp)
      · intro d _ longer hlonger htext
        obtain ⟨single, pairs, hrow, -⟩ := lookup_of_text hlonger htext
        simp [Symbol.compounds?] at hrow
      · intro _ hhead
        obtain ⟨rest, hrest⟩ := List.head?_eq_some_iff.1 hhead
        exact hnot rest hrest
  · next hparen =>
    have hvoid : [c] = ['('] → cs.head? ≠ some ')' := by
      intro htext
      exact absurd (List.cons.inj htext).1 hparen
    split
    · next s hs =>
      refine .of_symbol rfl hword hdigit ?_ hvoid hslash
      intro d _ longer hlonger htext
      obtain ⟨single, pairs, hrow, -⟩ := lookup_of_text hlonger htext
      simp [compounds?_eq_none_of_ofChar? hs] at hrow
    · next single pairs hnone hrow =>
      split
      · refine .of_symbol rfl hword hdigit ?_ (by simp) (by simp)
        exact fun d _ longer hlonger => text_ne_of_length hlonger (by simp)
      · next hcompound =>
        refine .of_symbol rfl hword hdigit ?_ hvoid hslash
        intro d hhead longer hlonger htext
        obtain ⟨single', pairs', hrow', hlookup⟩ := lookup_of_text hlonger htext
        obtain ⟨rest, rfl⟩ := List.head?_eq_some_iff.1 hhead
        rw [hrow] at hrow'
        obtain ⟨rfl, rfl⟩ := Prod.mk.inj (Option.some.inj hrow')
        rw [compound?_eq_some_iff.2 ⟨rfl, hlookup⟩] at hcompound
        cases hcompound
    · next hsingle hcompound =>
      refine .of_symbol rfl hword hdigit ?_ hvoid hslash
      intro d _ longer hlonger htext
      obtain ⟨single, pairs, hrow, -⟩ := lookup_of_text hlonger htext
      simp [hcompound] at hrow

end Symbols

/-! ### Strings -/

theorem stringBody?_plain {c : Char} (hquote : c ≠ '"') (hbackslash : c ≠ '\\') (cs : List Char) :
    stringBody? (c :: cs) =
      (stringBody? cs).map fun (text, used, rest) => (c :: text, c :: used, rest) := by
  rw [stringBody?]
  · exact hquote
  · intro heq
    exact absurd heq hbackslash
  · intro d ds heq
    exact absurd heq hbackslash

theorem unescapes_of_stringBody? {cs text used rest : List Char}
    (h : stringBody? cs = some (text, used, rest)) :
    ∃ body, used = body ++ ['"'] ∧ Unescapes body text := by
  fun_induction stringBody? cs generalizing text used rest with
  | case1 => simp at h
  | case2 cs =>
    simp only [Option.some.injEq, Prod.mk.injEq] at h
    obtain ⟨rfl, rfl, -⟩ := h
    exact ⟨[], rfl, .nil⟩
  | case3 => simp at h
  | case4 c cs ih =>
    obtain ⟨⟨t, u, r⟩, hbody, heq⟩ := Option.map_eq_some_iff.1 h
    simp only [Prod.mk.injEq] at heq
    obtain ⟨rfl, rfl, -⟩ := heq
    obtain ⟨body, rfl, hunescapes⟩ := ih hbody
    exact ⟨'\\' :: c :: body, rfl, .escape hunescapes⟩
  | case5 c cs hquote hend hescape ih =>
    obtain ⟨⟨t, u, r⟩, hbody, heq⟩ := Option.map_eq_some_iff.1 h
    simp only [Prod.mk.injEq] at heq
    obtain ⟨rfl, rfl, -⟩ := heq
    obtain ⟨body, rfl, hunescapes⟩ := ih hbody
    -- a backslash is followed by nothing or by the character that it escapes
    have hbackslash : c ≠ '\\' := by
      rintro rfl
      cases cs with
      | nil => exact hend rfl rfl
      | cons d ds => exact hescape d ds rfl rfl
    exact ⟨c :: body, rfl, .plain hquote hbackslash hunescapes⟩

theorem stringBody?_of_unescapes {body text : List Char} (h : Unescapes body text)
    (rest : List Char) :
    stringBody? (body ++ '"' :: rest) = some (text, body ++ ['"'], rest) := by
  induction h with
  | nil => rfl
  | plain hquote hbackslash _ ih =>
    rw [List.cons_append, stringBody?_plain hquote hbackslash, ih]
    rfl
  | escape _ ih =>
    simp only [List.cons_append, stringBody?, ih]
    rfl

theorem string_spells (pos eof : Position) {cs : List Char}
    (heof : eof = pos.advanceAll ('"' :: cs)) :
    Spells pos eof (string pos cs).text (string pos cs).rest (string pos cs).token := by
  unfold string
  split
  · next text used rest hbody =>
    obtain ⟨body, rfl, hunescapes⟩ := unescapes_of_stringBody? hbody
    exact .string hunescapes
  · next hbody =>
    rw [← heof]
    refine .unterminated ?_
    rintro body text rest hunescapes rfl
    rw [stringBody?_of_unescapes hunescapes rest] at hbody
    cases hbody

theorem string_maximal (pos : Position) (cs : List Char) :
    Maximal (string pos cs).text (string pos cs).rest (string pos cs).token := by
  have hhead : (string pos cs).text.head? = some '"' := by
    unfold string
    split <;> rfl
  obtain ⟨tail, htail⟩ := List.head?_eq_some_iff.1 hhead
  rw [htail] at hhead ⊢
  refine .of_symbol rfl rfl rfl ?_ (by simp) (by simp)
  intro d _ longer hlonger htext
  have hquote : longer.text.toList.head? ≠ some '"' := head?_text_ne (by decide) rfl rfl hlonger
  exact hquote (by rw [htext]; rfl)

/-! ### Words and numbers -/

theorem Keyword.mem_all (k : Keyword) : k ∈ Keyword.all := by
  cases k <;> decide

theorem wordToken_spells (pos eof : Position) {c : Char} {cs : List Char} (rest : List Char)
    (hstart : isWordStart c = true) (hpart : ∀ d ∈ cs, isWordPart d = true) :
    Spells pos eof (c :: cs) rest (wordToken pos (c :: cs)) := by
  simp only [wordToken]
  split
  · next hvoid =>
    have htext : c :: cs = "void".toList := by
      rw [← hvoid, String.toList_ofList]
    rw [htext]
    exact .voidWord
  · next hvoid =>
    split
    · next keyword hkeyword =>
      have hspelled : keyword.text = String.ofList (c :: cs) := by
        simpa using List.find?_some hkeyword
      have htext : c :: cs = keyword.text.toList := by
        rw [hspelled, String.toList_ofList]
      rw [htext]
      exact .keyword
    · next hkeyword =>
      refine .identifier hstart hpart hvoid ?_
      intro k hk
      have hnone := List.find?_eq_none.1 hkeyword k (Keyword.mem_all k)
      simp [hk] at hnone

theorem numberToken_spells (pos eof : Position) {digits : List Char} (rest : List Char)
    (hne : digits ≠ []) (hdigits : ∀ d ∈ digits, Decimal.isDigit d = true) :
    Spells pos eof digits rest (numberToken pos digits) := by
  simp only [numberToken]
  split
  · next hfinite => exact .number hne hdigits hfinite
  · next hfinite => exact .overflow hne hdigits (by simpa using hfinite)

theorem isDigit_of_isWordStart {c : Char} (h : isWordStart c = true) :
    Decimal.isDigit c = false := by
  by_contra hdigit
  simp only [Bool.not_eq_false, Decimal.isDigit, Bool.and_eq_true, decide_eq_true_eq,
    Char.le_def, UInt32.le_iff_toNat_le] at hdigit
  unfold isWordStart at h
  delta Char.isAlpha Char.isUpper Char.isLower at h
  simp only [Bool.or_eq_true, Bool.and_eq_true, decide_eq_true_eq, ge_iff_le,
    UInt32.le_iff_toNat_le] at h
  have hupper : '9'.val.toNat < 'A'.val.toNat := by decide
  have hlower : '9'.val.toNat < 'a'.val.toNat := by decide
  rcases h with rfl | h | h
  · revert hdigit
    decide
  · omega
  · omega

theorem head?_dropWhile_eq_false {p : Char → Bool} {cs : List Char} {d : Char}
    (h : (cs.dropWhile p).head? = some d) : p d = false := by
  have hnot := List.head?_dropWhile_not p cs
  rw [h] at hnot
  simpa using hnot

theorem wordToken_ne_symbol (pos : Position) (word : List Char) (s : Symbol) (p : Position) :
    wordToken pos word ≠ .symbol s p := by
  simp only [wordToken]
  split
  · simp
  · split <;> simp

theorem numberToken_ne_symbol (pos : Position) (digits : List Char) (s : Symbol) (p : Position) :
    numberToken pos digits ≠ .symbol s p := by
  simp only [numberToken]
  split <;> simp

/-- A word or a number is as long as possible if no character of its kind follows. -/
theorem Maximal.of_run {c : Char} {text rest : List Char} {t : Token} (hhead : text.head? = some c)
    (hstart : isWordStart c = true ∨ Decimal.isDigit c = true) (ht : ∀ s pos, t ≠ .symbol s pos)
    (hword : isWordStart c = true → ∀ d, rest.head? = some d → isWordPart d = false)
    (hnumber : Decimal.isDigit c = true → ∀ d, rest.head? = some d → Decimal.isDigit d = false) :
    Maximal text rest t where
  word := by
    intro c' d hc'
    rw [hhead] at hc'
    obtain rfl := Option.some.inj hc'
    exact fun hc => hword hc d
  number := by
    intro c' d hc'
    rw [hhead] at hc'
    obtain rfl := Option.some.inj hc'
    exact fun hc => hnumber hc d
  symbol := fun s pos _ heq => absurd heq (ht s pos)
  void := by
    rintro rfl
    obtain rfl := Option.some.inj hhead
    exact absurd hstart (by decide)
  comment := by
    rintro rfl
    obtain rfl := Option.some.inj hhead
    exact absurd hstart (by decide)

/-! ### Any lexeme -/

theorem read_spells {c : Char} {cs : List Char} (hsettled : Settled (c :: cs)) (pos eof : Position)
    (heof : eof = pos.advanceAll (c :: cs)) :
    Spells pos eof (read pos c cs).text (read pos c cs).rest (read pos c cs).token := by
  obtain ⟨hblank, -⟩ := hsettled c cs rfl
  unfold read
  split
  · next hstart =>
    simp only [run]
    exact wordToken_spells pos eof _ hstart fun d hd => List.mem_takeWhile_imp hd
  · next hstart =>
    split
    · next hdigit =>
      simp only [run]
      refine numberToken_spells pos eof _ (List.cons_ne_nil _ _) ?_
      intro d hd
      rcases List.mem_cons.1 hd with rfl | hd
      · exact hdigit
      · exact List.mem_takeWhile_imp hd
    · next hdigit =>
      split
      · next hquote =>
        subst hquote
        exact string_spells pos eof heof
      · next hquote =>
        exact symbol_spells hblank (by simpa using hstart) (by simpa using hdigit) hquote pos eof

theorem read_maximal {c : Char} {cs : List Char} (hsettled : Settled (c :: cs)) (pos : Position) :
    Maximal (read pos c cs).text (read pos c cs).rest (read pos c cs).token := by
  obtain ⟨-, hcomment⟩ := hsettled c cs rfl
  unfold read
  split
  · next hstart =>
    simp only [run]
    refine .of_run rfl (.inl hstart) (wordToken_ne_symbol pos _) ?_ ?_
    · exact fun _ d hd => head?_dropWhile_eq_false hd
    · intro hdigit
      simp [isDigit_of_isWordStart hstart] at hdigit
  · next hstart =>
    split
    · next hdigit =>
      simp only [run]
      refine .of_run rfl (.inr hdigit) (numberToken_ne_symbol pos _) ?_ ?_
      · exact fun hword => absurd hword hstart
      · exact fun _ d hd => head?_dropWhile_eq_false hd
    · next hdigit =>
      split
      · exact string_maximal pos cs
      · exact symbol_maximal (by simpa using hstart) (by simpa using hdigit) hcomment pos

end Lexeme

end ExprLang
