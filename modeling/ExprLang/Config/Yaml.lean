import ExprLang.Number.Printed
import ExprLang.Text

/-! # Settings values

The values that a settings file can hold, with the three things that are asked of them: whether they
count as true, whether two of them are the same key, and how they look in a message. -/

namespace ExprLang

inductive Yaml where
  | null
  | bool (flag : Bool)
  | int (value : Int)
  | float (value : Binary64)
  | string (text : String)
  | date (year month day : Nat)
  | time (year month day hour minute second microsecond : Nat)
  | list (items : List Yaml)
  | map (members : List (Yaml × Yaml))
deriving Repr

namespace Yaml

/-! ### Faults -/

/-- What a settings text may hold that breaks the program off, since nothing reports it. -/
inductive Defect where
  /-- A number or a date that is spelled like one and is none, or a number with too many digits. -/
  | number
  /-- An escape for a character past the last one. -/
  | codePoint
  /-- An escape for a character whose number does not even fit a word. -/
  | wideCodePoint
  /-- A list as a key, with a list or a map among its items. -/
  | nestedKey
deriving DecidableEq, Repr

inductive Fault where
  | malformed
  | defect (defect : Defect)
deriving DecidableEq, Repr

/-! ### Truth -/

/-- Nothing, zero and everything empty count as false. -/
def isTrue : Yaml → Bool
  | null => false
  | bool flag => flag
  | int value => value != 0
  | float value => !value.isZero
  | string s => s != ""
  | date _ _ _ => true
  | time _ _ _ _ _ _ _ => true
  | list items => !items.isEmpty
  | map members => !members.isEmpty

/-! ### Equality -/

/-- The numeric value in units of the least positive number; a flag counts as one or zero. Infinities
lie past all others. -/
def units? : Yaml → Option Int
  | bool flag => some (flag.toNat * Binary64.unitsPerOne)
  | int value => some (value * Binary64.unitsPerOne)
  | float value => if value.isFinite then some value.signedUnits else none
  | _ => none

/-- Whether two scalars are equal; numbers and flags are compared by value, and what is no number is
equal to itself. -/
def sameScalar : Yaml → Yaml → Bool
  | null, null => true
  | string s, string t => s == t
  | date y m d, date y' m' d' => y == y' && m == m' && d == d'
  | time y m d h n s u, time y' m' d' h' n' s' u' =>
    y == y' && m == m' && d == d' && h == h' && n == n' && s == s' && u == u'
  | a, b =>
    match a.units?, b.units?, a, b with
    | some x, some y, _, _ => x == y
    | none, none, float x, float y => (x.isNaN && y.isNaN) || x.eq y
    | _, _, _, _ => false

def isScalar : Yaml → Bool
  | list _ => false
  | map _ => false
  | _ => true

/-- Whether two keys are equal. A key is a scalar or a list of scalars. -/
def same : Yaml → Yaml → Bool
  | list xs, list ys => xs.length == ys.length && (xs.zip ys).all fun (x, y) => x.sameScalar y
  | a, b => a.sameScalar b

def get? (members : List (Yaml × Yaml)) (key : String) : Option Yaml :=
  (members.find? fun member => member.1.same (.string key)).map Prod.snd

/-! ### Display -/

def padded (width n : Nat) : String :=
  let digits := Decimal.toDigits n
  String.ofList (List.replicate (width - digits.length) '0' ++ digits)

def dateText (year month day : Nat) : String :=
  padded 4 year ++ "-" ++ padded 2 month ++ "-" ++ padded 2 day

def timeText (hour minute second microsecond : Nat) : String :=
  padded 2 hour ++ ":" ++ padded 2 minute ++ ":" ++ padded 2 second ++
    (if microsecond = 0 then "" else "." ++ padded 6 microsecond)

/-- The parts of a time of day that are shown inside a list: seconds and microseconds only if they,
or what follows them, are not zero. -/
def timeParts (hour minute second microsecond : Nat) : List Nat :=
  if microsecond ≠ 0 then [hour, minute, second, microsecond]
  else if second ≠ 0 then [hour, minute, second]
  else [hour, minute]

def call (name : String) (arguments : List Nat) : String :=
  name ++ "(" ++ ", ".intercalate (arguments.map Nat.repr) ++ ")"

mutual
/-- A value as it looks inside a list or a map. -/
def inspect : Yaml → String
  | null => "None"
  | bool true => "True"
  | bool false => "False"
  | int value => value.repr
  | float value => value.printPointed
  | string s => Text.inspect s
  | date year month day => call "datetime.date" [year, month, day]
  | time year month day hour minute second microsecond =>
    call "datetime.datetime" ([year, month, day] ++ timeParts hour minute second microsecond)
  | list items => "[" ++ inspectItems items ++ "]"
  | map members => "\x7b" ++ inspectMembers members ++ "\x7d"

def inspectItems : List Yaml → String
  | [] => ""
  | [value] => inspect value
  | value :: rest => inspect value ++ ", " ++ inspectItems rest

def inspectMembers : List (Yaml × Yaml) → String
  | [] => ""
  | [member] => inspectMember member
  | member :: rest => inspectMember member ++ ", " ++ inspectMembers rest

def inspectMember : Yaml × Yaml → String
  | (key, value) => inspectKey key ++ ": " ++ inspect value

/-- A key; a list that is a key stands in parentheses, and a comma follows its only item. -/
def inspectKey : Yaml → String
  | list [item] => "(" ++ inspect item ++ ",)"
  | list items => "(" ++ inspectItems items ++ ")"
  | key => inspect key
end

/-- The most digits that an integer may have to be read or shown. -/
def digitLimit : Nat := 4300

mutual
def isShowable : Yaml → Bool
  | int value => (Decimal.toDigits value.natAbs).length ≤ digitLimit
  | list items => areShowable items
  | map members => areShowableMembers members
  | _ => true

def areShowable : List Yaml → Bool
  | [] => true
  | value :: rest => isShowable value && areShowable rest

def areShowableMembers : List (Yaml × Yaml) → Bool
  | [] => true
  | (key, value) :: rest => isShowable key && isShowable value && areShowableMembers rest
end

/-- A value as it looks on its own: a text stands as it is. -/
def display (value : Yaml) : Except Defect String :=
  match value with
  | string s => .ok s
  | date year month day => .ok (dateText year month day)
  | time year month day hour minute second microsecond =>
    .ok (dateText year month day ++ " " ++ timeText hour minute second microsecond)
  | value => if value.isShowable then .ok value.inspect else .error .number

end Yaml

end ExprLang
