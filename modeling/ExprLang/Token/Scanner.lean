import ExprLang.Diagnostic.Log
import ExprLang.Source.Cursor
import ExprLang.Token.Basic

/-! # Scanning

A source text is cut into lexemes, each as long as possible, with blanks and comments between them.
Scanning goes on after an invalid lexeme and ends with one end-of-file token. -/

namespace ExprLang

/-- A token, the characters it was read from, and the characters after them. -/
structure Lexeme where
  token : Token
  text : List Char
  rest : List Char

namespace Lexeme

/-! ### Words and numbers -/

def isWordStart (c : Char) : Bool := c = '_' || c.isAlpha

def isWordPart (c : Char) : Bool := c = '_' || c.isAlphanum

/-- The token of a word: the word for the void value, a keyword or an identifier. -/
def wordToken (pos : Position) (word : List Char) : Token :=
  let text := String.ofList word
  if text = "void" then .literal .void pos
  else
    match Keyword.ofText? text with
    | some keyword => .keyword keyword pos
    | none => .literal (.identifier text) pos

/-- The token of a run of digits; a number past the range of finite ones is invalid. -/
def numberToken (pos : Position) (digits : List Char) : Token :=
  let value := Binary64.ofNat (Decimal.ofDigits digits)
  if value.isFinite then .literal (.number value) pos
  else .invalid (.syntaxError pos "Failed to parse number")

/-- The longest lexeme that starts with `c` and goes on with characters of a class. -/
def run (inClass : Char → Bool) (token : List Char → Token) (c : Char) (cs : List Char) : Lexeme :=
  let text := c :: cs.takeWhile inClass
  ⟨token text, text, cs.dropWhile inClass⟩

/-! ### Strings -/

/-- What an escape stands for; an unknown one stands for itself, with its backslash. -/
def unescape : Char → List Char
  | '"' => ['"']
  | '\\' => ['\\']
  | 'n' => ['\n']
  | 't' => ['\t']
  | c => ['\\', c]

/-- The text of a string after its opening quote, the characters through the closing quote, and those
after it. There is none without a closing quote. -/
def stringBody? : List Char → Option (List Char × List Char × List Char)
  | [] => none
  | '"' :: cs => some ([], ['"'], cs)
  | ['\\'] => none
  | '\\' :: c :: cs =>
    (stringBody? cs).map fun (text, used, rest) => (unescape c ++ text, '\\' :: c :: used, rest)
  | c :: cs => (stringBody? cs).map fun (text, used, rest) => (c :: text, c :: used, rest)

/-- A string that starts with a quote; without a closing one it takes the whole rest of the source,
and its diagnostic stands at the end. -/
def string (pos : Position) (cs : List Char) : Lexeme :=
  match stringBody? cs with
  | some (text, used, rest) => ⟨.literal (.string (String.ofList text)) pos, '"' :: used, rest⟩
  | none => ⟨.invalid (.unterminatedString (pos.advanceAll ('"' :: cs))), '"' :: cs, []⟩

/-! ### Symbols -/

/-- The two-character symbol that the next character completes, if it is among the given ones. -/
def compound? (pairs : List (Char × Symbol)) : List Char → Option (Symbol × Char × List Char)
  | [] => none
  | d :: cs => (pairs.lookup d).map fun symbol => (symbol, d, cs)

/-- A symbol, the void value written as empty parentheses, or an unknown character. -/
def symbol (pos : Position) (c : Char) (cs : List Char) : Lexeme :=
  if c = '(' then
    match cs with
    | ')' :: rest => ⟨.literal .void pos, ['(', ')'], rest⟩
    | _ => ⟨.symbol .leftParen pos, [c], cs⟩
  else
    match Symbol.ofChar? c, Symbol.compounds? c with
    | some s, _ => ⟨.symbol s pos, [c], cs⟩
    | none, some (single, pairs) =>
      match compound? pairs cs with
      | some (s, d, rest) => ⟨.symbol s pos, [c, d], rest⟩
      | none => ⟨.symbol single pos, [c], cs⟩
    | none, none => ⟨.invalid (.unknownToken pos (String.singleton c)), [c], cs⟩

def read (pos : Position) (c : Char) (cs : List Char) : Lexeme :=
  if isWordStart c then run isWordPart (wordToken pos) c cs
  else if Decimal.isDigit c then run Decimal.isDigit (numberToken pos) c cs
  else if c = '"' then string pos cs
  else symbol pos c cs

/-! ### A lexeme takes at least its first character -/

theorem stringBody?_append {cs text used rest : List Char}
    (h : stringBody? cs = some (text, used, rest)) : used ++ rest = cs := by
  fun_induction stringBody? cs generalizing text used rest with
  | case1 => simp at h
  | case2 cs =>
    simp only [Option.some.injEq, Prod.mk.injEq] at h
    obtain ⟨-, rfl, rfl⟩ := h
    rfl
  | case3 => simp at h
  | case4 c cs ih =>
    obtain ⟨⟨t, u, r⟩, hbody, heq⟩ := Option.map_eq_some_iff.1 h
    simp only [Prod.mk.injEq] at heq
    obtain ⟨-, rfl, rfl⟩ := heq
    simp [ih hbody]
  | case5 c cs _ _ _ ih =>
    obtain ⟨⟨t, u, r⟩, hbody, heq⟩ := Option.map_eq_some_iff.1 h
    simp only [Prod.mk.injEq] at heq
    obtain ⟨-, rfl, rfl⟩ := heq
    simp [ih hbody]

theorem compound?_eq_some {pairs : List (Char × Symbol)} {cs rest : List Char} {s : Symbol}
    {d : Char} (h : compound? pairs cs = some (s, d, rest)) : cs = d :: rest := by
  cases cs with
  | nil => simp [compound?] at h
  | cons e cs =>
    obtain ⟨_, -, heq⟩ := Option.map_eq_some_iff.1 h
    simp only [Prod.mk.injEq] at heq
    simp [heq]

theorem symbol_append (pos : Position) (c : Char) (cs : List Char) :
    (symbol pos c cs).text ++ (symbol pos c cs).rest = c :: cs := by
  unfold symbol
  split
  · next hc => subst hc; split <;> simp
  · split
    · simp
    · split
      · next h => simp [compound?_eq_some h]
      · simp
    · simp

/-- A lexeme and what follows it make up the text that it was read from. -/
theorem read_append (pos : Position) (c : Char) (cs : List Char) :
    (read pos c cs).text ++ (read pos c cs).rest = c :: cs := by
  unfold read
  split
  · simp [run, List.takeWhile_append_dropWhile]
  · split
    · simp [run, List.takeWhile_append_dropWhile]
    · split
      · next hc =>
        subst hc
        unfold string
        split
        · next h => simp [stringBody?_append h]
        · simp
      · exact symbol_append pos c cs

theorem head?_text_read (pos : Position) (c : Char) (cs : List Char) :
    (read pos c cs).text.head? = some c := by
  unfold read
  split
  · rfl
  · split
    · rfl
    · split
      · next hc => subst hc; unfold string; split <;> rfl
      · unfold symbol
        split
        · next hc => subst hc; split <;> rfl
        · split
          · rfl
          · split <;> rfl
          · rfl

theorem length_rest_read_le (pos : Position) (c : Char) (cs : List Char) :
    (read pos c cs).rest.length ≤ cs.length := by
  have happend := congrArg List.length (read_append pos c cs)
  have hhead := head?_text_read pos c cs
  cases htext : (read pos c cs).text with
  | nil => simp [htext] at hhead
  | cons => simp [htext] at happend; omega

end Lexeme

/-! ### Token by token -/

/-- What is left to scan. After the end-of-file token nothing is. -/
structure Scanner where
  pos : Position
  rest : List Char
  finished : Bool
deriving DecidableEq, Repr

namespace Scanner

def start (source : String) : Scanner := ⟨Position.start, source.toList, false⟩

def next? (s : Scanner) : Option (Token × Scanner) :=
  if s.finished then none
  else
    match skipTrivia false s.pos s.rest with
    | (p, []) => some (.endOfFile p, ⟨p, [], true⟩)
    | (p, c :: cs) =>
      let lexeme := Lexeme.read p c cs
      some (lexeme.token, ⟨p.advanceAll lexeme.text, lexeme.rest, false⟩)

/-- A bound on the tokens that are left. -/
def remaining (s : Scanner) : Nat := if s.finished then 0 else s.rest.length + 1

theorem remaining_lt_of_next? {s after : Scanner} {t : Token} (h : s.next? = some (t, after)) :
    after.remaining < s.remaining := by
  unfold next? at h
  split at h
  · simp at h
  · next hfinished =>
    have htrivia := length_skipTrivia_le false s.pos s.rest
    split at h
    · simp only [Option.some.injEq, Prod.mk.injEq] at h
      obtain ⟨-, rfl⟩ := h
      simp [remaining, hfinished]
    · next p c cs hskip =>
      simp only [Option.some.injEq, Prod.mk.injEq] at h
      obtain ⟨-, rfl⟩ := h
      have hrest := Lexeme.length_rest_read_le p c cs
      simp only [hskip, List.length_cons] at htrivia
      simp only [remaining, hfinished, Bool.false_eq_true, if_false]
      omega

def tokens (s : Scanner) : List Token :=
  match _h : s.next? with
  | none => []
  | some (t, after) => t :: after.tokens
termination_by s.remaining
decreasing_by exact remaining_lt_of_next? _h

end Scanner

def DiagnosticLog.record (log : DiagnosticLog) (t : Token) : DiagnosticLog :=
  match t.fault? with
  | some fault => log.push fault
  | none => log

/-- Draws at most `n` tokens and records the invalid ones. -/
def Scanner.draw : Nat → Scanner → DiagnosticLog → List Token × DiagnosticLog
  | 0, _, log => ([], log)
  | n + 1, s, log =>
    match s.next? with
    | none => ([], log)
    | some (t, after) =>
      let (ts, log) := after.draw n (log.record t)
      (t :: ts, log)

namespace Token

/-- The tokens of a source text; the last one is its end of file. -/
def scan (source : String) : List Token := (Scanner.start source).tokens

def faults (ts : List Token) : List Diagnostic := ts.filterMap fault?

def scanInto (log : DiagnosticLog) (source : String) : List Token × DiagnosticLog :=
  let ts := scan source
  (ts, log.append (faults ts))

end Token

end ExprLang
