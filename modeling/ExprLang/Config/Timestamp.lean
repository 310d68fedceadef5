import ExprLang.Config.Yaml

/-! # Dates and times

A plain scalar may be spelled as a date, or as a date and a time of day with an optional fraction and
an optional offset. An offset is taken off the time. -/

namespace ExprLang.Yaml

/-! ### The calendar -/

def isLeapYear (year : Nat) : Bool :=
  year % 4 == 0 && (year % 100 != 0 || year % 400 == 0)

def daysInMonth (year month : Nat) : Nat :=
  if month = 2 then (if isLeapYear year then 29 else 28)
  else if month ∈ [4, 6, 9, 11] then 30
  else 31

/-- A date that exists; years count from one. -/
def date? (year month day : Nat) : Option Yaml :=
  if 1 ≤ year ∧ 1 ≤ month ∧ month ≤ 12 ∧ 1 ≤ day ∧ day ≤ daysInMonth year month then
    some (.date year month day)
  else none

def dayBefore : Nat × Nat × Nat → Nat × Nat × Nat
  | (year, month, day) =>
    if 1 < day then (year, month, day - 1)
    else if 1 < month then (year, month - 1, daysInMonth year (month - 1))
    else (year - 1, 12, 31)

def dayAfter : Nat × Nat × Nat → Nat × Nat × Nat
  | (year, month, day) =>
    if day < daysInMonth year month then (year, month, day + 1)
    else if month < 12 then (year, month + 1, 1)
    else (year + 1, 1, 1)

def shiftDays : Int → Nat × Nat × Nat → Nat × Nat × Nat
  | .ofNat n, d => n.repeat dayAfter d
  | .negSucc n, d => (n + 1).repeat dayBefore d

/-! ### Spelling -/

/-- A number of `least` to `most` digits at the start of a text, and what follows it. -/
def digits? (least most : Nat) (cs : List Char) : Option (Nat × List Char) :=
  let run := (cs.takeWhile Decimal.isDigit).take most
  if least ≤ run.length then some (Decimal.ofDigits run, cs.drop run.length) else none

def after? (c : Char) : List Char → Option (List Char)
  | [] => none
  | d :: cs => if c = d then some cs else none

/-- The microseconds of a fraction, rounded, which may make a whole second. -/
def microseconds (fraction : List Char) : Nat :=
  let six := (fraction ++ List.replicate 6 '0').take 6
  Decimal.ofDigits six + if (fraction.drop 6).head?.any ('4' < ·) then 1 else 0

/-- An offset in minutes, up to the end of the text. -/
def offset? (cs : List Char) : Option Int :=
  match cs.dropWhile isBlank with
  | [] => if cs.isEmpty then some 0 else none
  | ['Z'] => some 0
  | sign :: cs => do
    let (hours, cs) ← digits? 1 2 cs
    let minutes ← match cs with
      | [] => some 0
      | cs => do
        let (minutes, rest) ← digits? 2 2 (← after? ':' cs)
        if rest.isEmpty then some minutes else none
    let total : Int := 60 * hours + minutes
    if sign = '+' then some total else if sign = '-' then some (-total) else none
where
  isBlank (c : Char) : Bool := c = ' ' || c = '\t'

/-- The parts of a time of day at the start of a text: hour, minute, second and microseconds, and
what follows them. -/
def timeOfDay? (cs : List Char) : Option (Nat × Nat × Nat × Nat × List Char) := do
  let (hour, cs) ← digits? 1 2 cs
  let (minute, cs) ← digits? 2 2 (← after? ':' cs)
  let (second, cs) ← digits? 2 2 (← after? ':' cs)
  let (fraction, cs) := match cs with
    | '.' :: cs => (cs.takeWhile Decimal.isDigit, cs.dropWhile Decimal.isDigit)
    | cs => ([], cs)
  return (hour, minute, second, microseconds fraction, cs)

/-- What stands between a date and a time: one letter, or blanks. -/
def timeStart? : List Char → Option (List Char)
  | 'T' :: cs => some cs
  | 't' :: cs => some cs
  | c :: cs => if c = ' ' || c = '\t' then some (cs.dropWhile fun c => c = ' ' || c = '\t') else none
  | [] => none

/-- The time that its parts name, moved by an offset. -/
def time? (date : Nat × Nat × Nat) (hour minute second microsecond : Nat) (offset : Int) :
    Option Yaml := do
  let (year, month, day) := date
  let _ ← date? year month day
  if hour ≤ 23 ∧ minute ≤ 59 ∧ second ≤ 59 then
    let total : Int := 3600 * hour + 60 * minute + second + microsecond / 1000000 - 60 * offset
    let (year, month, day) := shiftDays (total / 86400) date
    let seconds := (total % 86400).toNat
    return .time year month day (seconds / 3600) (seconds / 60 % 60) (seconds % 60)
      (microsecond % 1000000)
  else none

/-- A plain scalar that is spelled as a date or a time; one that does not exist is a defect. -/
def timestamp? (cs : List Char) : Option (Except Fault Yaml) := do
  let orDefect (value : Option Yaml) : Except Fault Yaml :=
    match value with
    | some value => .ok value
    | none => .error (.defect .number)
  let (year, rest) ← digits? 4 4 cs
  let (month, rest) ← digits? 1 2 (← after? '-' rest)
  let (day, rest) ← digits? 1 2 (← after? '-' rest)
  if rest.isEmpty then
    if cs.length = 10 then return orDefect (date? year month day) else none
  else
    let (hour, minute, second, microsecond, rest) ← timeOfDay? (← timeStart? rest)
    let offset ← offset? rest
    return orDefect (time? (year, month, day) hour minute second microsecond offset)

end ExprLang.Yaml
