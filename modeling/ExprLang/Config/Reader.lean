import ExprLang.Config.Node

/-! # Values of a settings text

A node becomes a value by what its scalars mean. A key stands in a map once only. The key `<<` merges
other maps into its own, whose keys win over theirs.

A node with several faults shows the first one that is met when lists and maps are gone through level
by level; a key is gone through as a whole when it is met. -/

namespace ExprLang.Yaml

namespace Node

def scalarValue (plain : Bool) (text : List Char) : Except Fault Yaml :=
  if plain then resolve text else .ok (.string (String.ofList text))

def checkScalar : Node → Except Fault Unit
  | scalar plain text => do
    let _ ← scalarValue plain text
  | _ => .ok ()

/-! ### Maps -/

/-- Makes a value a key; a map is none, and neither is a list with anything but scalars in it. -/
def keyOf : Yaml → Except Fault Yaml
  | .map _ => .error .malformed
  | .list items =>
    if items.all Yaml.isScalar then .ok (.list items) else .error (.defect .nestedKey)
  | key => .ok key

def isMerge : Node → Bool
  | scalar true text => text = mergeKey
  | _ => false

mutual
/-- The members that a map takes over from others, and those of its own. -/
def merged : Nat → List (Node × Node) → Except Fault (List (Node × Node) × List (Node × Node))
  | 0, _ => .error .malformed
  | _ + 1, [] => .ok ([], [])
  | fuel + 1, (key, value) :: members => do
    if key.isMerge then
      let first ← mergeSource fuel value
      let (more, own) ← merged fuel members
      if first.isEmpty || !members.any (·.1.isMerge) then return (first ++ more, own)
      else .error .malformed
    else
      let (inherited, own) ← merged fuel members
      return (inherited, (key, value) :: own)

/-- The members of a map, or of all maps in a list, the last one first. -/
def mergeSource : Nat → Node → Except Fault (List (Node × Node))
  | 0, _ => .error .malformed
  | fuel + 1, map members => do
    let (inherited, own) ← merged fuel members
    return inherited ++ own
  | fuel + 1, list items => do
    let sources ← items.mapM fun item =>
      match item with
      | map members => mergeSource fuel (map members)
      | _ => .error .malformed
    return sources.reverse.flatten
  | _ + 1, scalar _ _ => .error .malformed
end

/-- Puts a value under a key, in the place of an earlier one if there is any. -/
def put (members : List (Yaml × Node)) (key : Yaml) (value : Node) : List (Yaml × Node) :=
  if members.any (·.1.same key) then
    members.map fun member => if member.1.same key then (member.1, value) else member
  else members ++ [(key, value)]

def keyValue (valueOf : Node → Except Fault Yaml) : Node → Except Fault Yaml
  | scalar true text =>
    if text = valueKey then .ok (.string (String.ofList text)) else resolve text
  | key => do keyOf (← valueOf key)

/-- Adds members one by one, given the values of nodes. If keys are unique none may come twice.
Scalars have to have a meaning. -/
def addMembers (valueOf : Node → Except Fault Yaml) (unique : Bool) :
    List (Yaml × Node) → List (Node × Node) → Except Fault (List (Yaml × Node))
  | done, [] => .ok done
  | done, (key, node) :: members => do
    let key ← keyValue valueOf key
    node.checkScalar
    if unique && done.any (·.1.same key) then .error .malformed
    else addMembers valueOf unique (put done key node) members

/-- The keys of a map with their nodes, given the values of nodes. Keys are unique unless some were
merged. -/
def members (valueOf : Node → Except Fault Yaml) (fuel : Nat) (ms : List (Node × Node)) :
    Except Fault (List (Yaml × Node)) := do
  let (inherited, own) ← merged fuel ms
  addMembers valueOf inherited.isEmpty [] (inherited ++ own)

/-! ### Values -/

def value : Nat → Node → Except Fault Yaml
  | 0, _ => .error .malformed
  | _ + 1, scalar plain text => scalarValue plain text
  | fuel + 1, list items => do return .list (← items.mapM (value fuel))
  | fuel + 1, map ms => do
    let members ← members (value fuel) (fuel + 1) ms
    return .map (← members.mapM fun (key, node) => do return (key, ← value fuel node))

/-- Goes through one node and gives the nodes in it. -/
def level (fuel : Nat) : Node → Except Fault (List Node)
  | scalar plain text => do
    (scalar plain text).checkScalar
    return []
  | list items => do
    items.forM checkScalar
    return items
  | map ms => do return (← members (value fuel) fuel ms).map Prod.snd

def check : Nat → List Node → Except Fault Unit
  | 0, _ => .ok ()
  | _ + 1, [] => .ok ()
  | fuel + 1, nodes => do
    let below ← nodes.mapM (level fuel)
    check fuel below.flatten

end Node

/-- The value of a settings text; an empty one is null. -/
def read (cs : List Char) : Except Fault Yaml := do
  let (marks, defect) ← Mark.scan cs
  match ← Node.ofMarks marks defect with
  | none => return .null
  | some root =>
    let fuel := 2 * marks.length + 8
    Node.check fuel [root]
    root.value fuel

end ExprLang.Yaml
