import ExprLang.Config.Timestamp

/-! # Plain scalars

What a plain scalar means is decided by its spelling alone. Underscores group the digits of a number;
a spelling that has no digit besides them is a number without a value, which is a defect. -/

namespace ExprLang.Yaml

/-! ### Integers -/

def digitIn? (base : Nat) (c : Char) : Option Nat :=
  let value? :=
    if Decimal.isDigit c then some (Decimal.digitValue c)
    else if 'a' ≤ c ∧ c ≤ 'f' then some (c.toNat - 'a'.toNat + 10)
    else if 'A' ≤ c ∧ c ≤ 'F' then some (c.toNat - 'A'.toNat + 10)
    else none
  value?.filter (· < base)

def isDigitIn (base : Nat) (c : Char) : Bool := (digitIn? base c).isSome

def natIn (base : Nat) (cs : List Char) : Nat :=
  cs.foldl (fun n c => base * n + (digitIn? base c).getD 0) 0

/-- The base of an unsigned integer and its digits, of which some may be underscores. Binary, octal
and hexadecimal ones are marked; zeros in front mean nothing. -/
def baseAndDigits : List Char → Nat × List Char
  | '0' :: 'b' :: cs => (2, cs)
  | '0' :: 'o' :: cs => (8, cs)
  | '0' :: 'x' :: cs => (16, cs)
  | cs => (10, cs)

def int? (cs : List Char) : Option (Except Fault Yaml) :=
  let (negative, body) := Decimal.splitSign cs
  let (base, digits) := baseAndDigits body
  if digits.isEmpty || cs.head? = some '_' || !digits.all (fun c => c = '_' || isDigitIn base c) then
    none
  else
    let digits := digits.filter (· ≠ '_')
    if digits.isEmpty || (base == 10 && digitLimit < digits.length) then
      some (.error (.defect .number))
    else
      let n := natIn base digits
      some (.ok (.int (if negative then -(n : Int) else n)))

/-! ### Numbers with a point or an exponent -/

/-- An exponent up to the end of a text. A number that starts with its point needs a sign in it. -/
def isExponent (signed : Bool) : List Char → Bool
  | [] => true
  | c :: cs =>
    let digits := (Decimal.splitSign cs).2
    (c = 'e' || c = 'E') && !digits.isEmpty && digits.all Decimal.isDigit &&
      (!signed || digits.length < cs.length)

/-- Whether an unsigned text is spelled as a number with a point or an exponent. -/
def isPointed (body : List Char) : Bool :=
  let isPart (c : Char) := c = '_' || Decimal.isDigit c
  match body with
  | [] => false
  | '.' :: cs =>
    !(cs.takeWhile isPart).isEmpty && isExponent true (cs.dropWhile isPart)
  | c :: cs =>
    Decimal.isDigit c &&
      match cs.dropWhile isPart with
      | '.' :: rest => isExponent false (rest.dropWhile isPart)
      | [] => false
      | rest => isExponent false rest

/-- The number nearest to a decimal. An exponent past all finite numbers is cut first. -/
def nearestTo (negative : Bool) (d : Decimal) : Binary64 :=
  let bound : Int := (Decimal.toDigits d.digits).length + 400
  Decimal.toBinary64 negative ⟨d.digits, max (-bound) (min bound d.exponent)⟩

/-- A plain scalar that is spelled as a number with a point or an exponent, or as a named infinity or
as no number. -/
def float? (cs : List Char) : Option (Except Fault Yaml) :=
  let (negative, body) := Decimal.splitSign cs
  let name := String.ofList body
  if name ∈ [".inf", ".Inf", ".INF"] then some (.ok (.float (Binary64.infinity negative)))
  else if body = cs ∧ name ∈ [".nan", ".NaN", ".NAN"] then some (.ok (.float Binary64.nan))
  else if isPointed body then
    match Decimal.read? (cs.filter (· ≠ '_')) with
    | some (negative, d) => some (.ok (.float (nearestTo negative d)))
    | none => some (.error (.defect .number))
  else none

/-! ### All plain scalars -/

def mergeKey : List Char := ['<', '<']

/-- The key that stands for the value of its map; as a key it is a text. -/
def valueKey : List Char := ['=']

def resolve (cs : List Char) : Except Fault Yaml :=
  let spelling := String.ofList cs
  if spelling ∈ ["", "~", "null", "Null", "NULL"] then .ok .null
  else if spelling ∈ ["true", "True", "TRUE"] then .ok (.bool true)
  else if spelling ∈ ["false", "False", "FALSE"] then .ok (.bool false)
  else if cs = mergeKey ∨ cs = valueKey then .error .malformed
  else
    ((float? cs).or ((int? cs).or (timestamp? cs))).getD (.ok (.string spelling))

end ExprLang.Yaml
