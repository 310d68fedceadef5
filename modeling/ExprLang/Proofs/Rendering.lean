import ExprLang.Proofs.Scanning
import ExprLang.Proofs.WholeNumbers

/-! # Writing tokens down and scanning them again

The tokens that a source can hold are written with one space between two of them. Scanning the line
gives the same tokens back, whichever of them stand next to each other: no text goes on across a
space, and none reaches its own end early. -/

namespace ExprLang

/-! ### Tokens apart from their positions -/

def Diagnostic.mapPos (f : Position → Position) : Diagnostic → Diagnostic
  | unknownToken pos token => .unknownToken (f pos) token
  | syntaxError pos problem => .syntaxError (f pos) problem
  | unterminatedString pos => .unterminatedString (f pos)
  | parseError pos problem found => .parseError (f pos) problem found
  | unmatchedDelimiter pos delimiter => .unmatchedDelimiter (f pos) delimiter
  | unknownOperator pos operator => .unknownOperator (f pos) operator
  | other problem => .other problem

namespace Token

def mapPos (f : Position → Position) : Token → Token
  | symbol s pos => .symbol s (f pos)
  | keyword k pos => .keyword k (f pos)
  | literal l pos => .literal l (f pos)
  | endOfFile pos => .endOfFile (f pos)
  | invalid fault => .invalid (fault.mapPos f)

def placedAt (pos : Position) (t : Token) : Token := t.mapPos fun _ => pos

/-- What is left of a token when its position is forgotten. -/
def unplaced (t : Token) : Token := t.placedAt .unknown

@[simp] theorem unplaced_placedAt (pos : Position) (t : Token) :
    (t.placedAt pos).unplaced = t.unplaced := by
  cases t with
  | invalid fault => cases fault <;> rfl
  | _ => rfl

theorem faults_map_unplaced (ts : List Token) :
    faults (ts.map unplaced) = (faults ts).map (Diagnostic.mapPos fun _ => .unknown) := by
  induction ts with
  | nil => rfl
  | cons t ts ih =>
    rw [faults, faults] at ih
    cases t <;> simp [faults, unplaced, placedAt, mapPos, fault?, List.filterMap_cons, ih]

end Token

theorem Lexeme.numberToken_mapPos (f : Position → Position) (pos : Position) (digits : List Char) :
    numberToken (f pos) digits = (numberToken pos digits).mapPos f := by
  simp only [numberToken]
  split <;> rfl

/-! ### The tokens that can be written -/

namespace Lexeme

def isReserved (word : String) : Bool := word == "void" || Keyword.all.any (·.text == word)

def isName (word : String) : Bool :=
  match word.toList with
  | [] => false
  | c :: cs => isWordStart c && cs.all isWordPart && !isReserved word

end Lexeme

/-- A character that stands for itself between quotes or has an escape of its own. The others are
written as their numbers, and reading does not undo that. -/
def Text.isQuotable (c : Char) : Bool := isPrintable c || c == '\n' || c == '\t'

def Literal.isWritable : Literal → Bool
  | identifier name => Lexeme.isName name
  | string text => text.toList.all Text.isQuotable
  | number value => value.isFinite && value.isWhole && !value.negative
  | void => true

def Token.isWritable : Token → Bool
  | symbol s _ => Symbol.scannable.contains s
  | keyword _ _ => true
  | literal l _ => l.isWritable
  | endOfFile _ => false
  | invalid _ => false

/-! ### Reading one text -/

namespace Lexeme

/-- A text is over, or goes on with a space. -/
def Separated (rest : List Char) : Prop := rest = [] ∨ ∃ cs, rest = ' ' :: cs

/-- `ReadsAs text t`: where a space or nothing follows, the next lexeme is `text`, and its token is
`t`. -/
def ReadsAs (text : List Char) (t : Token) : Prop :=
  ∃ c cs, text = c :: cs ∧ ∀ pos rest, Separated rest →
    Settled (c :: (cs ++ rest)) ∧ read pos c (cs ++ rest) = ⟨t.placedAt pos, text, rest⟩

theorem settled_of_not_blank {c : Char} (hblank : Text.isBlank c = false) (hslash : c ≠ '/')
    (cs : List Char) : Settled (c :: cs) := by
  intro d rest heq
  obtain ⟨rfl, -⟩ := List.cons.inj heq
  exact ⟨hblank, fun h => hslash h.1⟩

/-! #### Words and numbers -/

theorem run_before_space {inClass : Char → Bool} (hspace : inClass ' ' = false)
    (token : List Char → Token) (c : Char) {cs rest : List Char}
    (hcs : ∀ d ∈ cs, inClass d = true) (hrest : Separated rest) :
    run inClass token c (cs ++ rest) = ⟨token (c :: cs), c :: cs, rest⟩ := by
  have hstop : rest.takeWhile inClass = [] ∧ rest.dropWhile inClass = rest := by
    rcases hrest with rfl | ⟨ds, rfl⟩
    · exact ⟨rfl, rfl⟩
    · simp [hspace]
  rw [run, List.takeWhile_append_of_pos hcs, List.dropWhile_append_of_pos hcs, hstop.1, hstop.2,
    List.append_nil]

theorem toNat_of_isWordPart {c : Char} (h : isWordPart c = true) :
    48 ≤ c.toNat ∧ c.toNat ≤ 122 := by
  unfold isWordPart at h
  delta Char.isAlphanum Char.isAlpha Char.isUpper Char.isLower Char.isDigit at h
  simp only [Bool.or_eq_true, Bool.and_eq_true, decide_eq_true_eq, ge_iff_le,
    UInt32.le_iff_toNat_le] at h
  have hval : c.toNat = c.val.toNat := rfl
  have hbounds : '0'.val.toNat = 48 ∧ '9'.val.toNat = 57 ∧ 'A'.val.toNat = 65 ∧
      'Z'.val.toNat = 90 ∧ 'a'.val.toNat = 97 ∧ 'z'.val.toNat = 122 := by decide
  rcases h with rfl | h
  · decide
  · omega

theorem settled_of_isWordPart {c : Char} (h : isWordPart c = true) (cs : List Char) :
    Settled (c :: cs) := by
  obtain ⟨hlow, hhigh⟩ := toNat_of_isWordPart h
  refine settled_of_not_blank ?_ ?_ cs
  · simp only [Text.isBlank, Bool.or_eq_false_iff, Bool.and_eq_false_iff, decide_eq_false_iff_not,
      beq_eq_false_iff_ne]
    omega
  · rintro rfl
    exact absurd hlow (by decide)

theorem readsAs_word {c : Char} {cs : List Char} {t : Token} (hstart : isWordStart c = true)
    (hcs : ∀ d ∈ cs, isWordPart d = true)
    (htoken : ∀ pos, wordToken pos (c :: cs) = t.placedAt pos) : ReadsAs (c :: cs) t := by
  refine ⟨c, cs, rfl, fun pos rest hrest => ⟨?_, ?_⟩⟩
  · have hpart : isWordPart c = true := by
      simp only [isWordStart, Bool.or_eq_true] at hstart
      simpa [isWordPart, Char.isAlphanum, ← or_assoc] using Or.inl hstart
    exact settled_of_isWordPart hpart (cs ++ rest)
  · rw [read, if_pos hstart, run_before_space rfl _ c hcs hrest, htoken]

theorem readsAs_digits {c : Char} {cs : List Char} {t : Token}
    (hdigits : ∀ d ∈ c :: cs, Decimal.isDigit d = true)
    (htoken : ∀ pos, numberToken pos (c :: cs) = t.placedAt pos) : ReadsAs (c :: cs) t := by
  obtain ⟨hc, hcs⟩ := List.forall_mem_cons.1 hdigits
  refine ⟨c, cs, rfl, fun pos rest hrest => ⟨?_, ?_⟩⟩
  · have hdigit : c.isDigit = true := hc
    exact settled_of_isWordPart (by simp [isWordPart, Char.isAlphanum, hdigit]) (cs ++ rest)
  · have hword : ¬ isWordStart c = true := by
      intro hstart
      simp [isDigit_of_isWordStart hstart] at hc
    rw [read, if_neg hword, if_pos hc, run_before_space rfl _ c hcs hrest, htoken]

theorem keyword_spelling (k : Keyword) :
    (∃ c cs, k.text.toList = c :: cs ∧ isWordStart c = true ∧ cs.all isWordPart = true) ∧
      k.text ≠ "void" ∧ Keyword.ofText? k.text = some k := by
  cases k
  all_goals exact ⟨⟨_, _, rfl, by decide, by decide⟩, by decide, by decide⟩

theorem wordToken_toList (pos : Position) {word : String} (hvoid : word ≠ "void") :
    wordToken pos word.toList =
      match Keyword.ofText? word with
      | some keyword => .keyword keyword pos
      | none => .literal (.identifier word) pos := by
  simp only [wordToken, String.ofList_toList]
  exact if_neg hvoid

theorem readsAs_keyword (k : Keyword) (p : Position) :
    ReadsAs k.text.toList (.keyword k p) := by
  obtain ⟨⟨c, cs, htext, hstart, hcs⟩, hvoid, hkeyword⟩ := keyword_spelling k
  rw [htext]
  refine readsAs_word hstart (List.all_eq_true.1 hcs) fun pos => ?_
  rw [← htext, wordToken_toList pos hvoid, hkeyword]
  rfl

theorem ofText?_eq_none {word : String} (h : isReserved word = false) :
    word ≠ "void" ∧ Keyword.ofText? word = none := by
  simp only [isReserved, Bool.or_eq_false_iff, beq_eq_false_iff_ne] at h
  refine ⟨h.1, List.find?_eq_none.2 fun k hk => ?_⟩
  simpa using List.any_eq_false.1 h.2 k hk

theorem readsAs_identifier {name : String} (h : isName name = true) (p : Position) :
    ReadsAs name.toList (.literal (.identifier name) p) := by
  unfold isName at h
  split at h
  · simp at h
  · next c cs htext =>
    simp only [Bool.and_eq_true, List.all_eq_true, Bool.not_eq_true'] at h
    obtain ⟨⟨hstart, hcs⟩, hreserved⟩ := h
    obtain ⟨hvoid, hkeyword⟩ := ofText?_eq_none hreserved
    rw [htext]
    refine readsAs_word hstart hcs fun pos => ?_
    rw [← htext, wordToken_toList pos hvoid, hkeyword]
    rfl

theorem readsAs_number {x : Binary64} (hfinite : x.isFinite = true) (hwhole : x.isWhole = true)
    (hsign : x.negative = false) (p : Position) :
    ReadsAs x.print.toList (.literal (.number x) p) := by
  rw [Binary64.print_of_isWhole hfinite hwhole, String.toList_ofList, Binary64.signed, hsign,
    if_neg Bool.false_ne_true]
  have hvalue := Binary64.ofNat_units_div hfinite hwhole hsign
  generalize x.units / Binary64.unitsPerOne = n at hvalue
  have hdigits : ∀ d ∈ Decimal.toDigits n, Decimal.isDigit d = true :=
    fun d => Decimal.isDigit_of_mem_toDigits
  have hread : Decimal.ofDigits (Decimal.toDigits n) = n := Decimal.ofDigits_toDigits n
  cases htext : Decimal.toDigits n with
  | nil => exact absurd htext (Decimal.toDigits_ne_nil n)
  | cons c cs =>
    rw [htext] at hdigits hread
    refine readsAs_digits hdigits fun pos => ?_
    simp only [numberToken, hread, hvalue, if_pos hfinite]
    rfl

/-! #### Strings -/

/-- A quotable character stands for itself, or reading undoes its escape. -/
theorem escape_of_isQuotable {c : Char} (h : Text.isQuotable c = true) :
    (Text.escape c = [c] ∧ c ≠ '"' ∧ c ≠ '\\') ∨
      ∃ e, Text.escape c = ['\\', e] ∧ unescape e = [c] := by
  unfold Text.escape
  split
  · next hquote => exact .inr ⟨'"', rfl, by rw [hquote]; rfl⟩
  split
  · next hbackslash => exact .inr ⟨'\\', rfl, by rw [hbackslash]; rfl⟩
  split
  · next hnewline => exact .inr ⟨'n', rfl, by rw [hnewline]; rfl⟩
  split
  · next htab => exact .inr ⟨'t', rfl, by rw [htab]; rfl⟩
  next hquote hbackslash hnewline htab =>
    have hprintable : Text.isPrintable c = true := by
      simpa [Text.isQuotable, hnewline, htab] using h
    rw [if_pos hprintable]
    exact .inl ⟨rfl, hquote, hbackslash⟩

theorem Unescapes.escape_append {c : Char} {body text : List Char}
    (hc : Text.isQuotable c = true) (h : Unescapes body text) :
    Unescapes (Text.escape c ++ body) (c :: text) := by
  rcases escape_of_isQuotable hc with ⟨hself, hquote, hbackslash⟩ | ⟨e, hescape, hread⟩
  · rw [hself]
    exact .plain hquote hbackslash h
  · have hpair : Unescapes ('\\' :: e :: body) (unescape e ++ text) := .escape h
    rw [hread] at hpair
    rw [hescape]
    exact hpair

theorem unescapes_escape {text : List Char} (h : ∀ c ∈ text, Text.isQuotable c = true) :
    Unescapes (text.flatMap Text.escape) text := by
  induction text with
  | nil => exact .nil
  | cons c text ih =>
    obtain ⟨hc, htext⟩ := List.forall_mem_cons.1 h
    rw [List.flatMap_cons]
    exact .escape_append hc (ih htext)

theorem readsAs_quote {text : String} {read : List Char}
    (h : Unescapes (text.toList.flatMap Text.escape) read) (p : Position) :
    ReadsAs (Text.quote text).toList (.literal (.string (String.ofList read)) p) := by
  rw [Text.quote, String.toList_ofList]
  refine ⟨'"', _, rfl, fun pos rest _ => ⟨settled_of_not_blank rfl (by decide) _, ?_⟩⟩
  have hbody := stringBody?_of_unescapes h rest
  have hread : ∀ cs, Lexeme.read pos '"' cs = string pos cs := fun cs => rfl
  rw [hread, string, List.append_assoc, List.singleton_append, hbody]
  rfl

theorem readsAs_string {text : String} (h : ∀ c ∈ text.toList, Text.isQuotable c = true)
    (p : Position) :
    ReadsAs (Text.quote text).toList (.literal (.string text) p) := by
  have hreads := readsAs_quote (unescapes_escape h) p
  rwa [String.ofList_toList] at hreads

/-! #### Symbols -/

theorem Separated.head?_ne {rest : List Char} (h : Separated rest) {d : Char} (hd : d ≠ ' ') :
    rest.head? ≠ some d := by
  rcases h with rfl | ⟨cs, rfl⟩
  · simp
  · simpa using hd.symm

/-- A symbol starts with a character that starts nothing else. -/
theorem head_of_scannable {s : Symbol} (h : s ∈ Symbol.scannable) {c : Char} {cs : List Char}
    (htext : s.text.toList = c :: cs) :
    Text.isBlank c = false ∧ isWordStart c = false ∧ Decimal.isDigit c = false ∧ c ≠ '"' := by
  have hall : ∀ s ∈ Symbol.scannable, (s.text.toList.head?.all fun c =>
      !Text.isBlank c && !isWordStart c && !Decimal.isDigit c && c != '"') = true := by
    decide
  have hhead := hall s h
  rw [htext] at hhead
  simpa [and_assoc] using hhead

/-- No symbol goes on with a blank. -/
theorem lookup_blank {c : Char} {single : Symbol} {pairs : List (Char × Symbol)}
    (h : Symbol.compounds? c = some (single, pairs)) {d : Char} (hd : Text.isBlank d = true) :
    pairs.lookup d = none := by
  have hequals : (d == '=') = false := by
    rw [beq_eq_false_iff_ne]
    rintro rfl
    cases hd
  have hgreater : (d == '>') = false := by
    rw [beq_eq_false_iff_ne]
    rintro rfl
    cases hd
  unfold Symbol.compounds? at h
  split at h
  all_goals first | cases h; simp only [List.lookup_cons, List.lookup_nil, hequals, hgreater] | cases h

theorem compound?_of_separated {c : Char} {single : Symbol} {pairs : List (Char × Symbol)}
    (h : Symbol.compounds? c = some (single, pairs)) {rest : List Char} (hrest : Separated rest) :
    compound? pairs rest = none := by
  rcases hrest with rfl | ⟨cs, rfl⟩
  · rfl
  · have hspace : pairs.lookup ' ' = none := lookup_blank h rfl
    simp [compound?, hspace]

theorem symbol_leftParen (pos : Position) {rest : List Char} (hrest : Separated rest) :
    symbol pos '(' rest = ⟨.symbol .leftParen pos, ['('], rest⟩ := by
  rcases hrest with rfl | ⟨cs, rfl⟩
  · rfl
  · rfl

theorem symbol_of_ofChar? {c : Char} {s : Symbol} (h : Symbol.ofChar? c = some s) (pos : Position)
    (rest : List Char) : symbol pos c rest = ⟨.symbol s pos, [c], rest⟩ := by
  have hparen : c ≠ '(' := by
    rintro rfl
    cases h
  simp only [symbol, if_neg hparen, h]

theorem not_single_of_compounds? {c : Char} {row : Symbol × List (Char × Symbol)}
    (h : Symbol.compounds? c = some row) : c ≠ '(' ∧ Symbol.ofChar? c = none := by
  constructor
  · rintro rfl
    cases h
  · by_contra hsome
    obtain ⟨s, hs⟩ := Option.ne_none_iff_exists'.1 hsome
    simp [compounds?_eq_none_of_ofChar? hs] at h

theorem symbol_of_scannable {s : Symbol} (h : s ∈ Symbol.scannable) {c : Char} {cs : List Char}
    (htext : s.text.toList = c :: cs) (pos : Position) {rest : List Char} (hrest : Separated rest) :
    symbol pos c (cs ++ rest) = ⟨.symbol s pos, c :: cs, rest⟩ := by
  rcases scannable_cases h with hs | ⟨_, hs, hrow⟩ | ⟨_, pairs, hs, hrow⟩ |
    ⟨_, d, single, pairs, hs, hrow, hlookup⟩
  all_goals
    rw [hs] at htext
    obtain ⟨rfl, rfl⟩ := List.cons.inj htext
  · have hparen : s = .leftParen := by
      revert hs
      cases s <;> decide
    rw [hparen]
    exact symbol_leftParen pos hrest
  · exact symbol_of_ofChar? hrow pos rest
  · obtain ⟨hparen, hsingle⟩ := not_single_of_compounds? hrow
    have hnone : compound? pairs rest = none := compound?_of_separated hrow hrest
    simp only [List.nil_append, symbol, if_neg hparen, hsingle, hrow, hnone]
  · obtain ⟨hparen, hsingle⟩ := not_single_of_compounds? hrow
    have hcompound : compound? pairs (d :: rest) = some (s, d, rest) :=
      compound?_eq_some_iff.2 ⟨rfl, hlookup⟩
    simp only [List.cons_append, List.nil_append, symbol, if_neg hparen, hsingle, hrow, hcompound]

theorem not_comment_of_scannable {s : Symbol} (h : s ∈ Symbol.scannable) {c : Char} {cs : List Char}
    (htext : s.text.toList = c :: cs) {rest : List Char} (hrest : Separated rest) :
    ¬ (c = '/' ∧ (cs ++ rest).head? = some '/') := by
  rintro ⟨rfl, hhead⟩
  cases cs with
  | nil => exact hrest.head?_ne (by decide) hhead
  | cons d ds =>
    have hall : ∀ s ∈ Symbol.scannable, s.text.toList.take 2 ≠ ['/', '/'] := by decide
    obtain rfl : d = '/' := by simpa using hhead
    exact hall s h (by rw [htext]; rfl)

theorem readsAs_symbol {s : Symbol} (h : s ∈ Symbol.scannable) (p : Position) :
    ReadsAs s.text.toList (.symbol s p) := by
  cases htext : s.text.toList with
  | nil => exact absurd htext (by revert h; cases s <;> decide)
  | cons c cs =>
    obtain ⟨hblank, hword, hdigit, hquote⟩ := head_of_scannable h htext
    refine ⟨c, cs, rfl, fun pos rest hrest => ⟨?_, ?_⟩⟩
    · intro d ds heq
      obtain ⟨rfl, rfl⟩ := List.cons.inj heq
      exact ⟨hblank, not_comment_of_scannable h htext hrest⟩
    · simp only [read, hword, hdigit, Bool.false_eq_true, if_false, if_neg hquote]
      exact symbol_of_scannable h htext pos hrest

theorem readsAs_void (p : Position) : ReadsAs "()".toList (.literal .void p) := by
  refine ⟨'(', [')'], rfl, fun pos rest _ => ⟨?_, rfl⟩⟩
  exact settled_of_not_blank rfl (by decide) _

end Lexeme

/-! ### Reading a line -/

theorem Token.readsAs_of_isWritable {t : Token} (h : t.isWritable = true) :
    ∃ text, t.sourceText? = some text ∧ Lexeme.ReadsAs text.toList t := by
  cases t with
  | symbol s pos => exact ⟨s.text, rfl, Lexeme.readsAs_symbol (List.contains_iff_mem.1 h) pos⟩
  | keyword k pos => exact ⟨k.text, rfl, Lexeme.readsAs_keyword k pos⟩
  | literal l pos =>
    refine ⟨l.sourceText, rfl, ?_⟩
    cases l with
    | identifier name => exact Lexeme.readsAs_identifier h pos
    | string text => exact Lexeme.readsAs_string (List.all_eq_true.1 h) pos
    | number value =>
      simp only [isWritable, Literal.isWritable, Bool.and_eq_true, Bool.not_eq_true'] at h
      exact Lexeme.readsAs_number h.1.1 h.1.2 h.2 pos
    | void => exact Lexeme.readsAs_void pos
  | endOfFile pos => cases h
  | invalid fault => cases h

namespace Scanner

theorem tokens_of_readsAs {text rest : List Char} {t : Token} (h : Lexeme.ReadsAs text t)
    (hrest : Lexeme.Separated rest) (p : Position) :
    (Scanner.mk p (text ++ rest) false).tokens =
      t.placedAt p :: (Scanner.mk (p.advanceAll text) rest false).tokens := by
  obtain ⟨c, cs, rfl, hreads⟩ := h
  obtain ⟨hsettled, hread⟩ := hreads p rest hrest
  rw [List.cons_append, tokens_of_lexeme (skipTrivia_of_settled hsettled p), hread]

theorem tokens_space (p : Position) (cs : List Char) :
    (Scanner.mk p (' ' :: cs) false).tokens = (Scanner.mk (p.advance ' ') cs false).tokens := by
  have hskip : skipTrivia false p (' ' :: cs) = skipTrivia false (p.advance ' ') cs := rfl
  rcases hend : skipTrivia false (p.advance ' ') cs with ⟨q, rest⟩
  rw [hend] at hskip
  cases rest with
  | nil => rw [tokens_of_trivia hskip, tokens_of_trivia hend]
  | cons c rest => rw [tokens_of_lexeme hskip, tokens_of_lexeme hend]

end Scanner

namespace Token

/-- A source that is one lexeme on one line. -/
theorem scan_of_readsAs {source : String} {t : Token} (h : Lexeme.ReadsAs source.toList t)
    (hline : '\n' ∉ source.toList) :
    scan source = [t.placedAt ⟨1, 1⟩, .endOfFile ⟨1, 1 + source.length⟩] := by
  have htokens := Scanner.tokens_of_readsAs h (.inl rfl) .start
  have hend (p : Position) : skipTrivia false p [] = (p, []) := rfl
  rw [List.append_nil, Position.advanceAll_unbroken hline, Scanner.tokens_of_trivia (hend _),
    String.length_toList] at htokens
  exact htokens

theorem toList_toSource_cons_cons {t u : Token} {text next : String} (ts : List Token)
    (ht : t.sourceText? = some text) (hu : u.sourceText? = some next) :
    (toSource (t :: u :: ts)).toList = text.toList ++ ' ' :: (toSource (u :: ts)).toList := by
  simp [toSource, ht, hu, String.intercalate_cons_cons]

theorem unplaced_tokens_toSource (tokens : List Token) (h : ∀ t ∈ tokens, t.isWritable = true)
    (p : Position) :
    (Scanner.mk p (toSource tokens).toList false).tokens.map unplaced =
      tokens.map unplaced ++ [.endOfFile .unknown] := by
  induction tokens generalizing p with
  | nil =>
    have hskip : skipTrivia false p [] = (p, []) := rfl
    have hsource : (toSource []).toList = [] := by simp [toSource]
    rw [hsource, Scanner.tokens_of_trivia hskip]
    rfl
  | cons t ts ih =>
    obtain ⟨ht, hts⟩ := List.forall_mem_cons.1 h
    obtain ⟨text, htext, hreads⟩ := readsAs_of_isWritable ht
    -- the last text is followed by nothing, any other one by a space
    cases ts with
    | nil =>
      have hsource : (toSource [t]).toList = text.toList ++ (toSource []).toList := by
        simp [toSource, htext]
      have hend : Lexeme.Separated (toSource []).toList := .inl (by simp [toSource])
      rw [hsource, Scanner.tokens_of_readsAs hreads hend, List.map_cons, unplaced_placedAt, ih hts]
      rfl
    | cons u ts =>
      obtain ⟨next, hnext, -⟩ := readsAs_of_isWritable (hts u List.mem_cons_self)
      rw [toList_toSource_cons_cons ts htext hnext,
        Scanner.tokens_of_readsAs hreads (.inr ⟨_, rfl⟩), Scanner.tokens_space, List.map_cons,
        unplaced_placedAt, ih hts]
      rfl

theorem faults_of_isWritable {tokens : List Token} (h : ∀ t ∈ tokens, t.isWritable = true) :
    faults tokens = [] := by
  refine List.filterMap_eq_nil_iff.2 fun t ht => ?_
  cases t with
  | invalid fault => cases h _ ht
  | _ => rfl

/-- Scanning undoes writing: a line of tokens with single spaces between them is scanned to these
tokens and an end of file, and records nothing. -/
theorem scan_toSource (tokens : List Token) (h : ∀ t ∈ tokens, t.isWritable = true) :
    (scan (toSource tokens)).map unplaced = tokens.map unplaced ++ [.endOfFile .unknown] ∧
      ∀ log, (scanInto log (toSource tokens)).2 = log := by
  have hscan := unplaced_tokens_toSource tokens h .start
  refine ⟨hscan, fun log => ?_⟩
  have hfaults : faults (scan (toSource tokens)) = [] := by
    have hmapped : faults ((scan (toSource tokens)).map unplaced) =
        faults (tokens.map unplaced ++ [.endOfFile .unknown]) := congrArg faults hscan
    have hline : faults (tokens.map unplaced ++ [.endOfFile .unknown]) =
        faults (tokens.map unplaced) := by simp [faults, fault?]
    rw [hline, faults_map_unplaced, faults_map_unplaced, faults_of_isWritable h] at hmapped
    exact List.map_eq_nil_iff.1 hmapped
  simp [scanInto, hfaults, DiagnosticLog.append]

/-- Tokens that would run together without the spaces, and a string that looks like other tokens. -/
def closeNeighbours : List Token :=
  [.symbol .leftParen .start, .symbol .rightParen .start, .literal .void .start,
    .symbol .slash .start, .symbol .slash .start, .symbol .minus .start, .symbol .greater .start,
    .literal (.string "// \"a\" \\n\n\t") .start, .literal (.identifier "selfish") .start,
    .keyword .selfValue .start, .literal (.number (.ofNat 9007199254740993)) .start]

theorem scan_toSource_closeNeighbours :
    (∀ t ∈ closeNeighbours, t.isWritable = true) ∧
      (scan (toSource closeNeighbours)).map unplaced =
        closeNeighbours.map unplaced ++ [.endOfFile .unknown] ∧
      ∀ log, (scanInto log (toSource closeNeighbours)).2 = log := by
  have hwritable : ∀ t ∈ closeNeighbours, t.isWritable = true := by decide +kernel
  exact ⟨hwritable, scan_toSource closeNeighbours hwritable⟩

end Token

end ExprLang
