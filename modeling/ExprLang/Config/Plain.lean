import ExprLang.Config.Place

/-! # The text of plain scalars

A plain scalar ends before a comment, before a colon that ends a word, and inside brackets also
before a comma or a bracket. It may go on in the next lines, outside brackets only in lines that are
indented far enough; a line break counts as a blank then, and empty lines count as line breaks. -/

namespace ExprLang.Yaml

/-- The characters that structure lists and maps between brackets. -/
def isFlowMark (c : Char) : Bool :=
  c = ',' || c = '[' || c = ']' || c = '\x7b' || c = '\x7d'

/-- The characters that no plain scalar starts with, unless what follows allows it. -/
def isIndicator (c : Char) : Bool :=
  isFlowMark c || "-?:#&*!|>'\"%@`".contains c

def startsPlain (inFlow : Bool) (c : Char) (next : Option Char) : Bool :=
  if isSpace c || isBreak c then false
  else if !isIndicator c then true
  else if c = '-' then !endsWord next
  else if c = ':' then (if inFlow then !next.any isSpace else !endsWord next)
  else c = '?' && !inFlow && !endsWord next

/-- How many characters of a plain scalar follow without a blank. -/
def plainLength (inFlow : Bool) : List Char → Nat
  | [] => 0
  | c :: cs =>
    if endsWord (some c) || (c = ':' && endsWord cs.head?) || (inFlow && isFlowMark c) then 0
    else plainLength inFlow cs + 1

/-- The breaks of the empty lines after a line break inside a plain scalar, whether the scalar ends
there because a document mark follows, and the place of the next character that is no blank. -/
def plainEmptyLines : Nat → Place → List Char × Bool × Place
  | 0, p => ([], true, p)
  | fuel + 1, p =>
    if startsWithDocumentMark p.rest then ([], true, p)
    else
      let p := p.skipWhile (· = ' ')
      match p.lineBreak? with
      | none => ([], false, p)
      | some (b, p) =>
        let (more, ended, p) := plainEmptyLines fuel p
        (b :: more, ended, p)

/-- The blanks and line breaks between two words, whether a line break is among them, and the place
after them. There are none where the scalar ends. -/
def wordGap (fuel : Nat) (p : Place) : List Char × Bool × Place :=
  let blanks := p.rest.takeWhile (· = ' ')
  let p := p.skip blanks.length
  match p.lineBreak? with
  | none => (blanks, false, p)
  | some (b, p) =>
    let (more, ended, p) := plainEmptyLines fuel p
    (if ended then [] else foldBreaks b more, true, p)

/-- The text of a plain scalar whose lines are indented by at least `least`, whether it ends after a
line break, and the place after it. -/
def plainText (inFlow : Bool) (least : Int) : Nat → Place → List Char × Bool × Place
  | 0, p => ([], false, p)
  | fuel + 1, p =>
    let length := plainLength inFlow p.rest
    let word := p.rest.take length
    let (gap, broken, p) := wordGap fuel (p.skip length)
    if gap.isEmpty || p.rest.head? = some '#' || (!inFlow && p.column < least) ||
        plainLength inFlow p.rest = 0 then (word, broken, p)
    else
      let (text, broken, p) := plainText inFlow least fuel p
      (word ++ gap ++ text, broken, p)

end ExprLang.Yaml
