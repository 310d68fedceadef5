import ExprLang.Command.Options
import ExprLang.Text

/-! # Arguments of the command line

First every argument is told apart as an option or an operand; then they are taken in order. An
option may be shortened to a beginning that no other long option has, and one-letter options may
stand together behind one dash. A value stands behind an equals sign, directly behind a letter, or in
the next argument if that is no option. -/

namespace ExprLang

def ArgumentError.message : ArgumentError → String
  | ambiguous argument candidates =>
    "ambiguous option: " ++ argument ++ " could match " ++ ", ".intercalate candidates
  | missingValue option => "argument " ++ option.label ++ ": expected one argument"
  | ignoredValue option value =>
    "argument " ++ option.label ++ ": ignored explicit argument " ++ Text.inspect value
  | conflict option other =>
    "argument " ++ option.label ++ ": not allowed with argument " ++ other.label
  | noMode =>
    "one of the arguments " ++ " ".intercalate (CommandOption.modes.map CommandOption.label) ++
      " is required"
  | unrecognized arguments => "unrecognized arguments: " ++ " ".intercalate arguments

namespace Command

/-! ### Telling options from operands -/

/-- A value that stands in the same argument as its option. -/
inductive Attached where
  | nothing
  /-- Directly behind a one-letter option. -/
  | joined (value : List Char)
  /-- Behind an equals sign. -/
  | assigned (value : List Char)
deriving DecidableEq, Repr

inductive Tag where
  | operand
  /-- Two dashes, after which everything is an operand. -/
  | separator
  | unknownOption
  | option (option : CommandOption) (short : Bool) (attached : Attached)
deriving DecidableEq, Repr

/-- The part before the first equals sign and the part after it, if there is one. -/
def splitAssignment (cs : List Char) : List Char × Attached :=
  match cs.dropWhile (· ≠ '=') with
  | [] => (cs, .nothing)
  | _ :: value => (cs.takeWhile (· ≠ '='), .assigned value)

/-- Whether an argument is a negative number, which is no option; a newline at its end is ignored. -/
def isNegativeNumber (cs : List Char) : Bool :=
  match if cs.getLast? = some '\n' then cs.dropLast else cs with
  | '-' :: digits =>
    let fraction := digits.dropWhile Text.isDecimalDigit
    if fraction.isEmpty then !digits.isEmpty
    else fraction.head? = some '.' && 1 < fraction.length && (fraction.drop 1).all Text.isDecimalDigit
  | _ => false

/-- An argument with a dash that is no full spelling of an option. -/
def tagUnspelled (argument : String) : Except ArgumentError Tag :=
  let cs := argument.toList
  let (name, attached) := splitAssignment cs
  let rest : Tag :=
    if isNegativeNumber cs || cs.contains ' ' then .operand else .unknownOption
  if cs.take 2 = ['-', '-'] then
    match CommandOption.spellings.filter fun (spelling, _) => name.isPrefixOf spelling.toList with
    | [] => .ok rest
    | [(_, option)] => .ok (.option option false attached)
    | candidates => .error (.ambiguous argument (candidates.map Prod.fst))
  else
    match CommandOption.ofSpelling? (String.ofList (cs.take 2)) with
    | some option => .ok (.option option true (.joined (cs.drop 2)))
    | none => .ok rest

def tag (argument : String) : Except ArgumentError Tag :=
  let cs := argument.toList
  let (name, attached) := splitAssignment cs
  let short := cs.take 2 ≠ ['-', '-']
  if cs.head? ≠ some '-' || cs.length = 1 then .ok .operand
  else
    match CommandOption.ofSpelling? argument, CommandOption.ofSpelling? (String.ofList name) with
    | some option, _ => .ok (.option option short .nothing)
    | none, some option => .ok (.option option short attached)
    | none, none => tagUnspelled argument

def tagAll : List String → Except ArgumentError (List (String × Tag))
  | [] => .ok []
  | argument :: rest =>
    if argument = "--" then .ok ((argument, .separator) :: rest.map (·, .operand))
    else do
      let first ← tag argument
      let others ← tagAll rest
      return (argument, first) :: others

/-! ### Options of one argument -/

structure Request where
  actions : List (CommandOption × Option String)
  /-- Letters that are no option, with a dash in front. -/
  leftover : Option String
  /-- The last option, if its value has to come from the next argument. -/
  pending : Option CommandOption
deriving DecidableEq, Repr

def Request.ofOption (option : CommandOption) : Request :=
  if option.takesValue then ⟨[], none, some option⟩ else ⟨[(option, none)], none, none⟩

/-- A one-letter option with a text attached: its value, or more letters. -/
def lettersRequest (option : CommandOption) (assigned : Bool) (cs : List Char) :
    Except ArgumentError Request :=
  if option.takesValue then .ok ⟨[(option, some (String.ofList cs))], none, none⟩
  else
    match cs with
    | [] => .error (.ignoredValue option "")
    | c :: rest =>
      if assigned || c = '-' then .error (.ignoredValue option (String.ofList cs))
      else
        match CommandOption.ofSpelling? (String.ofList ['-', c]) with
        | none => .ok ⟨[(option, none)], some (String.ofList ('-' :: cs)), none⟩
        | some next => do
          let request ← match rest with
            | [] => .ok (Request.ofOption next)
            | '=' :: value => lettersRequest next true value
            | rest => lettersRequest next false rest
          return { request with actions := (option, none) :: request.actions }

def optionRequest (option : CommandOption) (short : Bool) : Attached → Except ArgumentError Request
  | .nothing => .ok (Request.ofOption option)
  | .joined cs => lettersRequest option false cs
  | .assigned cs =>
    if short || option.takesValue then lettersRequest option true cs
    else .error (.ignoredValue option (String.ofList cs))

/-! ### The whole command line -/

structure Invocation where
  file : Option String
  interactive : Bool
  source : Option String
  showTokens : Bool
  showTree : Bool
  json : Bool
  config : Option String
deriving DecidableEq, Repr

namespace Invocation

def empty : Invocation := ⟨none, false, none, false, false, false, none⟩

def isGiven (invocation : Invocation) : CommandOption → Bool
  | .file => invocation.file.isSome
  | .interactive => invocation.interactive
  | .eval => invocation.source.isSome
  | _ => false

end Invocation

/-- Why the program stops before it does anything. -/
inductive Stop where
  | help
  | version
  | refused (error : ArgumentError)
deriving DecidableEq, Repr

/-- A mode that excludes an option and has been given already. -/
def conflicting? (invocation : Invocation) (option : CommandOption) : Option CommandOption :=
  if option ∈ CommandOption.modes then
    CommandOption.modes.find? fun other => other ≠ option && invocation.isGiven other
  else none

/-- Takes one option; a later value replaces an earlier one. -/
def takeOption (invocation : Invocation) (option : CommandOption) (value : Option String) :
    Except Stop Invocation :=
  match conflicting? invocation option with
  | some other => .error (.refused (.conflict option other))
  | none =>
    match option with
    | .help => .error .help
    | .version => .error .version
    | .file => .ok { invocation with file := value }
    | .interactive => .ok { invocation with interactive := true }
    | .eval => .ok { invocation with source := value }
    | .showTokens => .ok { invocation with showTokens := true }
    | .showTree => .ok { invocation with showTree := true }
    | .json => .ok { invocation with json := true }
    | .config => .ok { invocation with config := value }

def takeAll (invocation : Invocation) (actions : List (CommandOption × Option String)) :
    Except Stop Invocation :=
  actions.foldlM (fun invocation (option, value) => takeOption invocation option value) invocation

/-- Takes tagged arguments in order and collects those that mean nothing. -/
def takeArguments (invocation : Invocation) (extras : List String) :
    List (String × Tag) → Except Stop (Invocation × List String)
  | [] => .ok (invocation, extras)
  | (_, .option option short attached) :: rest => do
    let request ← (optionRequest option short attached).mapError .refused
    let extras := extras ++ request.leftover.toList
    match request.pending, rest with
    | none, rest => takeArguments (← takeAll invocation request.actions) extras rest
    | some option, (value, .operand) :: rest =>
      takeArguments (← takeAll invocation (request.actions ++ [(option, some value)])) extras rest
    | some option, _ => .error (.refused (.missingValue option))
  | (argument, _) :: rest => takeArguments invocation (extras ++ [argument]) rest

def readArguments (arguments : List String) : Except Stop Invocation := do
  let tagged ← (tagAll arguments).mapError .refused
  let (invocation, extras) ← takeArguments .empty [] tagged
  if !CommandOption.modes.any invocation.isGiven then .error (.refused .noMode)
  else if !extras.isEmpty then .error (.refused (.unrecognized extras))
  else .ok invocation

end Command

end ExprLang
