import ExprLang.Config.Place
import ExprLang.Config.Scalar

/-! # Quoted scalars

Quoted scalars are always texts. In single quotes a doubled quote stands for one; in double quotes a
backslash starts an escape. Both may run over lines: blanks around a line break are dropped, the break
itself counts as a blank, and empty lines count as line breaks. A backslash at the end of a line drops
the break. No line of them may start with a document mark. -/

namespace ExprLang.Yaml

/-! ### Escapes -/

def simpleEscape? : Char → Option Char
  | '0' => some '\x00'
  | 'a' => some '\x07'
  | 'b' => some '\x08'
  | 't' => some '\t'
  | '\t' => some '\t'
  | 'n' => some '\n'
  | 'v' => some '\x0b'
  | 'f' => some '\x0c'
  | 'r' => some '\r'
  | 'e' => some '\x1b'
  | ' ' => some ' '
  | '"' => some '"'
  | '/' => some '/'
  | '\\' => some '\\'
  | 'N' => some '\u0085'
  | '_' => some '\u00a0'
  | 'L' => some '\u2028'
  | 'P' => some '\u2029'
  | _ => none

def escapeWidth? : Char → Option Nat
  | 'x' => some 2
  | 'u' => some 4
  | 'U' => some 8
  | _ => none

def character (n : Nat) : Except Fault Char :=
  if n.isValidChar then .ok (Char.ofNat n)
  else if n < 0x110000 then .error .malformed
  else if n < Nat.pow 2 31 then .error (.defect .codePoint)
  else .error (.defect .wideCodePoint)

/-- What an escape stands for, given the characters after its backslash, and how many of them belong
to it. -/
def escape (c : Char) (cs : List Char) : Except Fault (Char × Nat) :=
  match simpleEscape? c, escapeWidth? c with
  | some d, _ => .ok (d, 1)
  | none, some width => do
    let digits := cs.take width
    if digits.length = width && digits.all (isDigitIn 16) then
      return (← character (natIn 16 digits), width + 1)
    else .error .malformed
  | none, none => .error .malformed

/-! ### Lines -/

/-- The breaks of the empty lines that follow a line break, and the place of the next character that
is no blank. -/
def emptyLines : Nat → Place → Except Fault (List Char × Place)
  | 0, _ => .error .malformed
  | fuel + 1, p =>
    if startsWithDocumentMark p.rest then .error .malformed
    else
      let p := p.skipWhile isSpace
      match p.lineBreak? with
      | none => .ok ([], p)
      | some (b, p) => do
        let (more, p) ← emptyLines fuel p
        return (b :: more, p)

/-! ### Texts -/

/-- The text of a scalar after its opening quote, and the place after its closing one. -/
def quotedText (quote : Char) : Nat → Place → Except Fault (List Char × Place)
  | 0, _ => .error .malformed
  | fuel + 1, p =>
    let goOn (front : List Char) (p : Place) : Except Fault (List Char × Place) := do
      let (text, p) ← quotedText quote fuel p
      return (front ++ text, p)
    match p.rest with
    | [] => .error .malformed
    | c :: cs =>
      if isSpace c || isBreak c then
        let blanks := p.rest.takeWhile isSpace
        let p := p.skip blanks.length
        match p.lineBreak? with
        | none => goOn blanks p
        | some (b, p) => do
          let (more, p) ← emptyLines fuel p
          goOn (foldBreaks b more) p
      else if c = quote then
        if c = '\x27' && cs.head? = some c then goOn [c] (p.skip 2) else .ok ([], p.step)
      else if c = '\\' && quote = '"' then
        match p.step.lineBreak?, cs with
        | some (_, p), _ => do
          let (more, p) ← emptyLines fuel p
          goOn more p
        | none, d :: ds => do
          let (x, length) ← escape d ds
          goOn [x] (p.skip (1 + length))
        | none, [] => .error .malformed
      else goOn [c] p.step

def quoted (quote : Char) (p : Place) : Except Fault (List Char × Place) :=
  quotedText quote (p.rest.length + 1) p.step

end ExprLang.Yaml
