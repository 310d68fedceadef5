import ExprLang.Config.Place
import ExprLang.Number.Decimal

/-! # Literal scalars

The text of a literal scalar is the indented lines below its mark. The mark is a bar if they are kept
as they are, or an angle if they are folded: a break between two lines that do not start with a blank
counts as a blank then. A sign after the mark tells whether the breaks at the end are kept or dropped,
instead of only the first being kept, and a digit how far the lines are indented. -/

namespace ExprLang.Yaml

/-- What becomes of the line breaks at the end. -/
inductive Ending where
  | first
  | all
  | none
deriving DecidableEq, Repr

structure LiteralHeader where
  folded : Bool
  ending : Ending
  indentation : Option Nat
deriving DecidableEq, Repr

def Ending.ofSign? : Char → Option Ending
  | '+' => some .all
  | '-' => some .none
  | _ => Option.none

def indentationDigit? (c : Char) : Option Nat :=
  if '1' ≤ c ∧ c ≤ '9' then some (Decimal.digitValue c) else none

/-- The sign and the digit after a mark, in any order, and how many of them there are. -/
def headerSigns : List Char → Option Ending × Option Nat × Nat
  | [] => (none, none, 0)
  | [c] => (Ending.ofSign? c, indentationDigit? c, if (Ending.ofSign? c).isSome ||
      (indentationDigit? c).isSome then 1 else 0)
  | c :: d :: _ =>
    match Ending.ofSign? c, indentationDigit? c with
    | some ending, _ =>
      (some ending, indentationDigit? d, if (indentationDigit? d).isSome then 2 else 1)
    | none, some n => (Ending.ofSign? d, some n, if (Ending.ofSign? d).isSome then 2 else 1)
    | none, none => (none, none, 0)

/-- The header that starts with a mark, and the place of the first line. -/
def literalHeader? (p : Place) : Option (LiteralHeader × Place) :=
  let folded := p.rest.head? = some '>'
  let (ending, indentation, length) := headerSigns p.step.rest
  let p := p.step.skip length
  if p.rest.head?.any fun c => c ≠ ' ' && !isBreak c then none
  else
    let p := p.skipWhile (· = ' ')
    let p := if p.rest.head? = some '#' then p.skipLine else p
    match p.lineBreak? with
    | some (_, p) => some (⟨folded, ending.getD .first, indentation⟩, p)
    | none => if p.rest.isEmpty then some (⟨folded, ending.getD .first, indentation⟩, p) else none

/-- The place after the indentation of a line, of at most so many columns. -/
def skipIndentation (indentation : Nat) (p : Place) : Place :=
  p.skip (((p.rest.takeWhile (· = ' ')).take (indentation - p.column)).length)

/-- The breaks of empty lines before a line with a given indentation. -/
def indentedEmptyLines (indentation : Nat) : Nat → Place → List Char × Place
  | 0, p => ([], p)
  | fuel + 1, p =>
    let p := skipIndentation indentation p
    match p.lineBreak? with
    | none => ([], p)
    | some (b, p) =>
      let (more, p) := indentedEmptyLines indentation fuel p
      (b :: more, p)

/-- The empty lines before the first line that is not empty: their breaks, the widest indentation up
to that line, the indentation of the first of them, and the place after them. -/
def leadingLines : Nat → Place → List Char × Nat × Option Nat × Place
  | 0, p => ([], 0, none, p)
  | fuel + 1, p =>
    let p := p.skipWhile (· = ' ')
    match p.lineBreak? with
    | none => ([], p.column, none, p)
    | some (b, after) =>
      let (more, widest, _, after) := leadingLines fuel after
      (b :: more, max p.column widest, some p.column, after)

/-- The lines of a literal scalar from the first one on. The list holds the breaks of the empty lines
before the next line. The result is the text up to the last break, that break, the breaks of the empty
lines after it, and the place after them. -/
def literalLines (folded : Bool) (indentation : Nat) (mayEnd : Bool) :
    Nat → List Char → Place → List Char × List Char × List Char × Place
  | 0, breaks, p => ([], [], breaks, p)
  | fuel + 1, breaks, p =>
    if p.column ≠ indentation || p.rest.isEmpty then ([], [], breaks, p)
    else
      let startsBlank := p.rest.head?.any isSpace
      let line := p.rest.takeWhile fun c => !endsLine (some c)
      let p := p.skip line.length
      let (first, p) := match p.lineBreak? with
        | some (b, p) => ([b], p)
        | none => ([], p)
      let (more, p) := indentedEmptyLines indentation fuel p
      if (mayEnd && p.column = 0 && startsWithDocumentMark p.rest) || p.column ≠ indentation ||
          p.rest.isEmpty then (breaks ++ line, first, more, p)
      else
        let joint :=
          if folded && first = ['\n'] && !startsBlank && !p.rest.head?.any isSpace then
            (if more.isEmpty then [' '] else [])
          else first
        let (text, last, more, p) := literalLines folded indentation mayEnd fuel more p
        (breaks ++ line ++ joint ++ text, last, more, p)

def literal? (outer : Int) (p : Place) : Option (List Char × Place) := do
  let (header, p) ← literalHeader? p
  let fuel := p.rest.length + 1
  let least := (outer + 1).toNat
  let (breaks, indentation, p) ← match header.indentation with
    | some n =>
      let indentation := max least 1 + n - 1
      let (breaks, p) := indentedEmptyLines indentation fuel p
      some (breaks, indentation, p)
    | none =>
      let (breaks, widest, first, p) := leadingLines fuel p
      if first.any fun n => 0 < n && n < widest then none else some (breaks, max least widest, p)
  let (text, last, more, p) :=
    literalLines header.folded indentation (header.indentation.isNone && least == 0) fuel breaks p
  return match header.ending with
    | .first => (text ++ last, p)
    | .all => (text ++ last ++ more, p)
    | .none => (text, p)

end ExprLang.Yaml
