import ExprLang.Config.Literal
import ExprLang.Config.Plain
import ExprLang.Config.Quoted

/-! # Layout of a settings text

A settings text is read as a list of marks. Lists and maps that are written by indentation are opened
and closed by marks of their own, as if they stood between brackets.

What stands before a colon is a key, but that is seen only when the colon comes. So the place of
everything that may be a key is kept as a candidate, one at each depth of brackets, and the marks for
the key, and for the map that it opens, are put in there later. A candidate has to be on one line and
not too long. At the indentation of the current map every line has to start with a key. -/

namespace ExprLang.Yaml

inductive Mark where
  | documentStart
  | documentEnd
  | blockList
  | blockMap
  | blockEnd
  | openList
  | closeList
  | openMap
  | closeMap
  | comma
  | item
  | key
  | value
  | anchor (name : List Char)
  | reference (name : List Char)
  /-- A tag without a name, which lets the spelling of a scalar decide. -/
  | bareTag
  | scalar (plain : Bool) (text : List Char)
deriving DecidableEq, Repr

inductive Bracket where
  | list
  | map
deriving DecidableEq, Repr

/-- Something that is a key if a colon follows. -/
structure Candidate where
  /-- How many marks stand before it. -/
  marks : Nat
  required : Bool
  index : Nat
  line : Nat
  column : Nat
deriving DecidableEq, Repr

structure Layout where
  place : Place
  marks : List Mark
  /-- The indentation of the current list or map, which is negative outside all of them. -/
  indent : Int
  outerIndents : List Int
  /-- The open brackets, the innermost first, each with the candidate outside it. -/
  brackets : List (Bracket × Option Candidate)
  candidate : Option Candidate
  /-- Whether a key, or an item of a list, may start here. -/
  mayStart : Bool
  /-- The defect that the reading stopped at. -/
  defect : Option Defect
deriving Repr

namespace Layout

def start (cs : List Char) : Layout :=
  let p := Place.start cs
  let p := if cs.head? = some '\ufeff' then p.step else p
  ⟨p, [], -1, [], [], none, true, none⟩

def inFlow (l : Layout) : Bool := !l.brackets.isEmpty

def push (l : Layout) (m : Mark) : Layout := { l with marks := l.marks ++ [m] }

def take (l : Layout) (n : Nat) (m : Mark) : Layout :=
  { l.push m with place := l.place.skip n }

/-! ### Blanks and comments -/

/-- The place of the next mark, and whether a line break comes before it. A tab is a blank inside
brackets only. -/
def skipBlanks (inFlow : Bool) : Nat → Place → Place × Bool
  | 0, p => (p, false)
  | fuel + 1, p =>
    let p := p.skipWhile fun c => c = ' ' || (inFlow && c = '\t')
    let p := if p.rest.head? = some '#' then p.skipLine else p
    match p.lineBreak? with
    | none => (p, false)
    | some (_, p) => ((skipBlanks inFlow fuel p).1, true)

def toNextMark (l : Layout) : Layout :=
  let (p, broken) := skipBlanks l.inFlow (l.place.rest.length + 1) l.place
  { l with place := p, mayStart := l.mayStart || (broken && !l.inFlow) }

/-! ### Candidates for keys -/

/-- How many characters a key and the blanks after it may have. -/
def keyLimit : Nat := 1024

/-- A candidate that may still become a key at a place. -/
def fresh (p : Place) : Option Candidate → Except Fault (Option Candidate)
  | none => .ok none
  | some c =>
    if c.line = p.line && p.index ≤ c.index + keyLimit then .ok (some c)
    else if c.required then .error .malformed
    else .ok none

/-- Drops the candidates that can no longer become keys. -/
def dropStale (l : Layout) : Except Fault Layout := do
  let candidate ← fresh l.place l.candidate
  let brackets ← l.brackets.mapM fun (b, outside) => do return (b, ← fresh l.place outside)
  return { l with candidate := candidate, brackets := brackets }

def dropCandidate (l : Layout) : Except Fault Layout :=
  if l.candidate.any (·.required) then .error .malformed else .ok { l with candidate := none }

/-- Makes what comes next the candidate, if a key may start here. -/
def propose (l : Layout) : Except Fault Layout :=
  if l.mayStart then do
    let l ← l.dropCandidate
    let p := l.place
    let required := !l.inFlow && l.indent = p.column
    return { l with candidate := some ⟨l.marks.length, required, p.index, p.line, p.column⟩ }
  else .ok l

/-! ### Indentation -/

/-- How many blocks end before a column, and the indentations that are left. -/
def closed (column indent : Int) : List Int → Nat × Int × List Int
  | [] => (0, indent, [])
  | outer :: outers =>
    if column < indent then
      let (n, indent, outers) := closed column outer outers
      (n + 1, indent, outers)
    else (0, indent, outer :: outers)

/-- Closes the blocks that end before a column. Inside brackets indentation means nothing. -/
def closeBlocks (column : Int) (l : Layout) : Layout :=
  if l.inFlow then l
  else
    let (n, indent, outers) := closed column l.indent l.outerIndents
    { l with
      marks := l.marks ++ List.replicate n .blockEnd
      indent := indent
      outerIndents := outers }

/-- Opens a block at a column, with its mark after the first `n` marks, unless it is open already. -/
def openBlock (n column : Nat) (m : Mark) (l : Layout) : Layout :=
  if l.indent < column then
    { l with
      marks := l.marks.take n ++ m :: l.marks.drop n
      indent := column
      outerIndents := l.indent :: l.outerIndents }
  else l

/-- Opens a block for what starts here, which outside brackets is allowed only where a key may
start. -/
def openBlockHere (m : Mark) (l : Layout) : Except Fault Layout :=
  if l.inFlow then .ok l
  else if l.mayStart then .ok (openBlock l.marks.length l.place.column m l)
  else .error .malformed

/-! ### Marks -/

def documentMark (m : Mark) (l : Layout) : Except Fault Layout := do
  let l ← (l.closeBlocks (-1)).dropCandidate
  return { l.take 3 m with mayStart := false }

def openBracket (b : Bracket) (m : Mark) (l : Layout) : Except Fault Layout := do
  let l ← l.propose
  return { l.take 1 m with
    brackets := (b, l.candidate) :: l.brackets
    candidate := none
    mayStart := true }

def closeBracket (m : Mark) (l : Layout) : Except Fault Layout := do
  let l ← l.dropCandidate
  let l := match l.brackets with
    | [] => l
    | (_, outside) :: brackets => { l with brackets := brackets, candidate := outside }
  return { l.take 1 m with mayStart := false }

def commaMark (l : Layout) : Except Fault Layout := do
  let l ← l.dropCandidate
  return { l.take 1 .comma with mayStart := true }

def itemMark (l : Layout) : Except Fault Layout := do
  let l ← (← l.openBlockHere .blockList).dropCandidate
  return { l.take 1 .item with mayStart := true }

def keyMark (l : Layout) : Except Fault Layout := do
  let l ← (← l.openBlockHere .blockMap).dropCandidate
  return { l.take 1 .key with mayStart := !l.inFlow }

/-- A colon: what the candidate stands for is a key. Without a candidate it belongs to a key that has
a mark of its own. -/
def valueMark (l : Layout) : Except Fault Layout := do
  match l.candidate with
  | some c =>
    let l := { l with
      marks := l.marks.take c.marks ++ Mark.key :: l.marks.drop c.marks
      candidate := none }
    let l := if l.inFlow then l else openBlock c.marks c.column .blockMap l
    return { l.take 1 .value with mayStart := false }
  | none =>
    let l ← l.openBlockHere .blockMap
    return { l.take 1 .value with mayStart := !l.inFlow }

/-- A scalar or a property of one, up to a place. -/
def scalarMark (m : Mark) (p : Place) (mayStart : Bool) (l : Layout) : Except Fault Layout := do
  let l ← l.propose
  return { l.push m with place := p, mayStart := mayStart }

def name? (p : Place) : Option (List Char × Place) :=
  let name := p.rest.takeWhile fun c =>
    !isFlowMark c && !isSpace c && isAllowed c && '!' ≤ c && c ≠ '\ufeff' && c ≠ '\u0085'
  let p := p.skip name.length
  let ends := p.rest.head?.all fun c => isSpace c || isBreak c || isFlowMark c
  if name.isEmpty || !ends then none else some (name, p)

def nameMark (make : List Char → Mark) (l : Layout) : Except Fault Layout :=
  match name? l.place.step with
  | some (name, p) => l.scalarMark (make name) p false
  | none => .error .malformed

/-! ### One mark -/

/-- Whether a colon before this character is a mark. After another colon it starts a text instead, as
long as some candidate leaves open what these marks mean. -/
def isValueMark (l : Layout) (next : Option Char) : Bool :=
  match l.brackets with
  | (.map, _) :: _ =>
    let isOpen (c : Option Candidate) := c.any (·.marks < l.marks.length)
    !(l.marks.getLast? = some .value && (isOpen l.candidate || l.brackets.any (isOpen ·.2))) ||
      endsWord next
  | _ => endsWord next

def readMark (l : Layout) (c : Char) (cs : List Char) : Except Fault Layout :=
  let p := l.place
  let next := cs.head?
  if p.column = 0 && startsWithMark "---" p.rest then l.documentMark .documentStart
  else if p.column = 0 && startsWithMark "..." p.rest then l.documentMark .documentEnd
  else if p.column = 0 && c = '%' then .error .malformed
  else if c = '[' then l.openBracket .list .openList
  else if c = '\x7b' then l.openBracket .map .openMap
  else if c = ']' then l.closeBracket .closeList
  else if c = '\x7d' then l.closeBracket .closeMap
  else if c = ',' then l.commaMark
  else if c = '-' && endsWord next then l.itemMark
  else if c = '?' && (l.inFlow || endsWord next) then l.keyMark
  else if c = ':' && l.isValueMark next then l.valueMark
  else if c = '&' then l.nameMark .anchor
  else if c = '*' then l.nameMark .reference
  else if c = '!' then
    if next.all fun d => d = ' ' || endsLine (some d) then l.scalarMark .bareTag p.step false
    else .error .malformed
  else if (c = '|' || c = '>') && !l.inFlow then do
    let l ← l.dropCandidate
    match literal? l.indent p with
    | some (text, p) => return { l.push (.scalar false text) with place := p, mayStart := true }
    | none => .error .malformed
  else if c = '\x27' || c = '"' then do
    let l ← l.propose
    match quoted c p with
    | .ok (text, after) => return { l.push (.scalar false text) with place := after, mayStart := false }
    | .error (.defect d) => return { l with defect := some d }
    | .error .malformed => .error .malformed
  else if startsPlain l.inFlow c next then
    let (text, broken, after) := plainText l.inFlow (l.indent + 1) (p.rest.length + 1) p
    l.scalarMark (.scalar true text) after broken
  else .error .malformed

/-- The marks whose meaning is settled: those before the first candidate. -/
def settled (l : Layout) : List Mark :=
  let candidates := (l.candidate :: l.brackets.map Prod.snd).filterMap id
  l.marks.take (candidates.foldl (fun n c => min n c.marks) l.marks.length)

/-- Reads all marks, or those that are settled before a defect. Every mark takes at least one
character. -/
def run : Nat → Layout → Except Fault (List Mark × Option Defect)
  | 0, _ => .error .malformed
  | fuel + 1, l => do
    let before ← l.dropStale
    let l ← before.toNextMark.dropStale
    let l := l.closeBlocks l.place.column
    match l.place.rest with
    | [] =>
      let l ← (l.closeBlocks (-1)).dropCandidate
      return (l.marks, none)
    | c :: cs =>
      let l ← l.readMark c cs
      if l.defect.isSome then return (before.settled, l.defect) else run fuel l

end Layout

/-- The marks of a settings text, and the defect that they end at if there is one. -/
def Mark.scan (cs : List Char) : Except Fault (List Mark × Option Defect) :=
  if cs.all isAllowed then (Layout.start cs).run (cs.length + 1) else .error .malformed

end ExprLang.Yaml
