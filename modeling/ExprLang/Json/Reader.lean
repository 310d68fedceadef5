import ExprLang.Json
import ExprLang.Number.Decimal

/-! # Reading JSON

Reads a JSON text whose numbers are whole and not negative. Blanks may stand around every part of it,
and a string may hold any of the escapes, also a pair of them for one character. -/

namespace ExprLang.Json

/-- The blanks that may stand between the parts of a text. -/
def isBlank (c : Char) : Bool := c == ' ' || c == '\t' || c == '\n' || c == '\r'

def skipBlanks (cs : List Char) : List Char := cs.dropWhile isBlank

/-! ### Strings -/

def simpleEscape? : Char → Option Char
  | '"' => some '"'
  | '\\' => some '\\'
  | '/' => some '/'
  | 'n' => some '\n'
  | 'r' => some '\r'
  | 't' => some '\t'
  | 'b' => some '\x08'
  | 'f' => some '\x0c'
  | _ => none

def hexDigit? (c : Char) : Option Nat :=
  if '0' ≤ c ∧ c ≤ '9' then some (c.toNat - '0'.toNat)
  else if 'a' ≤ c ∧ c ≤ 'f' then some (c.toNat - 'a'.toNat + 10)
  else if 'A' ≤ c ∧ c ≤ 'F' then some (c.toNat - 'A'.toNat + 10)
  else none

def codeUnit? (a b c d : Char) : Option Nat := do
  return 4096 * (← hexDigit? a) + 256 * (← hexDigit? b) + 16 * (← hexDigit? c) + (← hexDigit? d)

def ofCodePoint? (n : Nat) : Option Char := if n.isValidChar then some (Char.ofNat n) else none

/-- Whether a code unit is the first of two that stand for one character. -/
def isHighSurrogate (unit : Nat) : Bool := 0xD800 ≤ unit && unit < 0xDC00

def ofSurrogates? (high low : Nat) : Option Char :=
  if 0xDC00 ≤ low ∧ low < 0xE000 then
    ofCodePoint? (0x10000 + 0x400 * (high - 0xD800) + (low - 0xDC00))
  else none

/-- The text of a string after its opening quote, and what follows its closing one. -/
def readString? : List Char → Option (List Char × List Char)
  | [] => none
  | '"' :: cs => some ([], cs)
  | '\\' :: 'u' :: a :: b :: c :: d :: cs => do
    let unit ← codeUnit? a b c d
    if isHighSurrogate unit then
      match cs with
      | '\\' :: 'u' :: a :: b :: c :: d :: cs =>
        let x ← ofSurrogates? unit (← codeUnit? a b c d)
        (readString? cs).map fun (text, rest) => (x :: text, rest)
      | _ => none
    else
      let x ← ofCodePoint? unit
      (readString? cs).map fun (text, rest) => (x :: text, rest)
  | '\\' :: c :: cs => do
    let x ← simpleEscape? c
    (readString? cs).map fun (text, rest) => (x :: text, rest)
  | c :: cs =>
    if c == '\\' || c.toNat < 0x20 then none
    else (readString? cs).map fun (text, rest) => (c :: text, rest)

/-! ### Values -/

/-- Parts with commas between them, up to a closing bracket, and what follows it. The number bounds
how many parts there are. -/
def readList? {α : Type} (read? : List Char → Option (α × List Char)) (closing : Char) :
    Nat → List Char → Option (List α × List Char)
  | 0, _ => none
  | bound + 1, cs => do
    let (a, rest) ← read? cs
    match skipBlanks rest with
    | [] => none
    | c :: rest =>
      if c = closing then some ([a], rest)
      else if c = ',' then
        (readList? read? closing bound rest).map fun (parts, rest) => (a :: parts, rest)
      else none

/-- The parts after an opening bracket, if there are any, and what follows the closing one. -/
def readParts? {α : Type} (read? : List Char → Option (α × List Char)) (closing : Char)
    (cs : List Char) : Option (List α × List Char) :=
  match skipBlanks cs with
  | [] => none
  | c :: rest => if c = closing then some ([], rest) else readList? read? closing cs.length cs

def readMember? (readValue? : List Char → Option (Json × List Char)) (cs : List Char) :
    Option ((String × Json) × List Char) := do
  let '"' :: cs := skipBlanks cs | none
  let (name, rest) ← readString? cs
  let ':' :: rest := skipBlanks rest | none
  let (value, rest) ← readValue? rest
  return ((String.ofList name, value), rest)

/-- A value at the start of a text, and what follows it. The number bounds the depth. -/
def readValue? : Nat → List Char → Option (Json × List Char)
  | 0, _ => none
  | depth + 1, cs =>
    match skipBlanks cs with
    | 'n' :: 'u' :: 'l' :: 'l' :: cs => some (null, cs)
    | 't' :: 'r' :: 'u' :: 'e' :: cs => some (bool true, cs)
    | 'f' :: 'a' :: 'l' :: 's' :: 'e' :: cs => some (bool false, cs)
    | '"' :: cs => (readString? cs).map fun (text, rest) => (string (String.ofList text), rest)
    | '[' :: cs =>
      (readParts? (readValue? depth) ']' cs).map fun (items, rest) => (array items, rest)
    | '\x7b' :: cs =>
      (readParts? (readMember? (readValue? depth)) '\x7d' cs).map fun (members, rest) =>
        (object members, rest)
    | cs =>
      let digits := cs.takeWhile Decimal.isDigit
      if digits.isEmpty then none
      else some (number (Decimal.ofDigits digits), cs.dropWhile Decimal.isDigit)

/-- The value of a text that holds nothing else. -/
def read? (text : String) : Option Json :=
  match readValue? (text.toList.length + 1) text.toList with
  | some (value, rest) => if (skipBlanks rest).isEmpty then some value else none
  | none => none

end ExprLang.Json
