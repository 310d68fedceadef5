import ExprLang.Config.Layout

/-! # Nodes of a settings text

The tree that the marks of a settings text form. What its scalars mean is not decided yet. A text
holds one document at most. -/

namespace ExprLang.Yaml

inductive Node where
  | scalar (plain : Bool) (text : List Char)
  | list (items : List Node)
  | map (members : List (Node × Node))
deriving Repr

namespace Node

def empty : Node := scalar true []

/-! ### Reading marks -/

/-- The marks that are left, the defect that they end at if there is one, and the nodes that have been
given names. -/
structure Source where
  marks : List Mark
  defect : Option Defect
  named : List (List Char × Node)

abbrev Reader := StateT Source (Except Fault)

def fail {α : Type} : Reader α := throw .malformed

def peek : Reader (Option Mark) := do
  let source ← get
  match source.marks, source.defect with
  | m :: _, _ => return some m
  | [], some d => throw (.defect d)
  | [], none => return none

def drop : Reader Unit := modify fun s => { s with marks := s.marks.tail }

def expect (m : Mark) : Reader Unit := do
  if (← peek) = some m then drop else fail

/-- Whether one of these marks, or the end, comes next. -/
def isNext (ms : List Mark) : Reader Bool := return (← peek).all (· ∈ ms)

def take? (m : Mark) : Reader Bool := do
  if (← peek) = some m then
    drop
    return true
  else return false

/-- What stands before a node: a name for it and a tag, each at most once and in any order. -/
def properties : Reader (Option (List Char) × Bool) := do
  let tagged ← take? .bareTag
  match ← peek with
  | some (.anchor name) =>
    drop
    let taggedAfter ← if tagged then pure false else take? .bareTag
    return (some name, tagged || taggedAfter)
  | _ => return (none, tagged)

/-- The node with a name, the one named last. -/
def named (name : List Char) : Reader Node := do
  match (← get).named.lookup name with
  | some node => return node
  | none => fail

/-! ### Nodes

The number bounds the recursion; every step takes a mark. -/

mutual
/-- A node. The flags tell whether it may be a list or a map by indentation, and whether it may be a
list that is indented no further than the map around it. -/
def node (inBlock flatList : Bool) : Nat → Reader Node
  | 0 => fail
  | fuel + 1 => do
    match ← peek with
    | some (.reference name) =>
      drop
      named name
    | _ =>
      let (name?, tagged) ← properties
      let result ← content inBlock flatList (name?.isSome || tagged) tagged fuel
      match name? with
      | some name => modify fun s => { s with named := (name, result) :: s.named }
      | none => pure ()
      return result

/-- A node without its properties; if it has some it may be empty. -/
def content (inBlock flatList mayBeEmpty tagged : Bool) : Nat → Reader Node
  | 0 => fail
  | fuel + 1 => do
    match ← peek with
    | some (.scalar plain text) =>
      drop
      return scalar (plain || tagged) text
    | some .openList =>
      drop
      return list (← flowItems true fuel)
    | some .openMap =>
      drop
      return map (← flowMembers true fuel)
    | some .blockList =>
      if inBlock then
        drop
        return list (← blockItems fuel)
      else if mayBeEmpty then return empty
      else fail
    | some .blockMap =>
      if inBlock then
        drop
        return map (← blockMembers fuel)
      else if mayBeEmpty then return empty
      else fail
    | some .item =>
      if flatList then return list (← flatItems fuel)
      else if mayBeEmpty then return empty
      else fail
    | _ => if mayBeEmpty then return empty else fail

/-- A node, unless one of these marks follows at once. -/
def nodeBefore (ms : List Mark) (inBlock flatList : Bool) : Nat → Reader Node
  | 0 => fail
  | fuel + 1 => do if ← isNext ms then return empty else node inBlock flatList fuel

/-- The value after a key, which may be missing altogether. -/
def valueBefore (ms : List Mark) (inBlock flatList : Bool) : Nat → Reader Node
  | 0 => fail
  | fuel + 1 => do
    if ← take? .value then nodeBefore ms inBlock flatList fuel else return empty

def blockItems : Nat → Reader (List Node)
  | 0 => fail
  | fuel + 1 => do
    if ← take? .item then
      let first ← nodeBefore [.item, .blockEnd] true false fuel
      return first :: (← blockItems fuel)
    else
      expect .blockEnd
      return []

/-- The items of a list that is indented no further than the map around it. -/
def flatItems : Nat → Reader (List Node)
  | 0 => fail
  | fuel + 1 => do
    if ← take? .item then
      let first ← nodeBefore [.item, .key, .value, .blockEnd] true false fuel
      return first :: (← flatItems fuel)
    else return []

def blockMembers : Nat → Reader (List (Node × Node))
  | 0 => fail
  | fuel + 1 => do
    let ends := [Mark.key, .value, .blockEnd]
    if ← take? .blockEnd then return []
    else
      let key ←
        if ← take? .key then nodeBefore ends true true fuel
        else if (← peek) = some .value then pure empty
        else fail
      let value ← valueBefore ends true true fuel
      return (key, value) :: (← blockMembers fuel)

/-- The items of a list between brackets. A key makes a map with one member of its item. -/
def flowItems (isFirst : Bool) : Nat → Reader (List Node)
  | 0 => fail
  | fuel + 1 => do
    if ← take? .closeList then return []
    else
      if isFirst then pure () else expect .comma
      if ← take? .closeList then return []
      else
        let ends := [Mark.comma, .closeList]
        let item ←
          if ← take? .key then do
            let key ← nodeBefore (.value :: ends) false false fuel
            let value ← valueBefore ends false false fuel
            pure (map [(key, value)])
          else node false false fuel
        return item :: (← flowItems false fuel)

def flowMembers (isFirst : Bool) : Nat → Reader (List (Node × Node))
  | 0 => fail
  | fuel + 1 => do
    if ← take? .closeMap then return []
    else
      if isFirst then pure () else expect .comma
      if ← take? .closeMap then return []
      else
        let ends := [Mark.comma, .closeMap]
        let member ←
          if ← take? .key then do
            let key ← nodeBefore (.value :: ends) false false fuel
            let value ← valueBefore ends false false fuel
            pure (key, value)
          else if (← peek) = some .value then do
            let value ← valueBefore ends false false fuel
            pure (empty, value)
          else do
            let key ← node false false fuel
            pure (key, empty)
        return member :: (← flowMembers false fuel)
end

/-! ### Documents -/

/-- The node of a document; there is none in an empty text. -/
def document (fuel : Nat) : Reader (Option Node) := do
  if (← peek).isNone then return none
  else
    let root ←
      if ← take? .documentStart then
        nodeBefore [.documentStart, .documentEnd] true false fuel
      else node true false fuel
    let _ ← take? .documentEnd
    if (← peek).isSome then fail else return some root

def ofMarks (ms : List Mark) (defect : Option Defect) : Except Fault (Option Node) :=
  ((document (3 * ms.length + 8)).run ⟨ms, defect, []⟩).map Prod.fst

end Node

end ExprLang.Yaml
