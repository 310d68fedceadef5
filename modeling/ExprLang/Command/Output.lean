import ExprLang.Config.Yaml
import ExprLang.Session.Report
import ExprLang.Session.Trace

/-! # Output of runs

What the runs of sources write, and how the program ends. A run shows its result either as a report
on standard output, or as text: the value on standard output, dumps and diagnostics on standard
error. Log records go to standard error as they come. -/

namespace ExprLang

structure Output where
  stdout : String
  stderr : String
deriving DecidableEq, Repr

namespace Output

def empty : Output := ⟨"", ""⟩

def append (a b : Output) : Output := ⟨a.stdout ++ b.stdout, a.stderr ++ b.stderr⟩

instance : Append Output := ⟨append⟩

def toStdout (text : String) : Output := ⟨text, ""⟩

def toStderr (text : String) : Output := ⟨"", text⟩

@[simp] theorem stdout_append (a b : Output) : (a ++ b).stdout = a.stdout ++ b.stdout := rfl
@[simp] theorem stderr_append (a b : Output) : (a ++ b).stderr = a.stderr ++ b.stderr := rfl

@[simp] theorem stdout_empty : empty.stdout = "" := rfl
@[simp] theorem stderr_empty : empty.stderr = "" := rfl

@[simp] theorem stdout_toStdout (text : String) : (toStdout text).stdout = text := rfl

end Output

/-- Why the program breaks off without an exit code of its own. -/
inductive Abort where
  /-- A file is not UTF-8. -/
  | notText
  /-- The settings file is a directory. -/
  | settingsDirectory
  /-- The settings file has a defect that nothing reports. -/
  | settingsDefect (defect : Yaml.Defect)
  /-- There is no source to run. -/
  | noSource
  /-- A tree is past the depth limit. -/
  | tooDeep
deriving DecidableEq, Repr

inductive Exit where
  | code (code : Nat)
  | aborted (reason : Abort)
deriving DecidableEq, Repr

namespace Command

def joinLines (lines : List String) : String := String.join (lines.map (· ++ "\n"))

/-- The dumps that a run left, tokens first. -/
def dumps (session : Session) : String := session.tokenDump.getD "" ++ session.treeDump.getD ""

def showValue (json : Bool) (source : String) (session : Session) (value : Value) : Output :=
  if json then
    .toStdout (Report.success source value session.tokenDump session.treeDump).line
  else ⟨value.print ++ "\n", dumps session⟩

def showFailure (json : Bool) (source : String) (session : Session) (failure : Failure) : Output :=
  if json then
    .toStdout (Report.failure source failure session.tokenDump session.treeDump).line
  else .toStderr (dumps session ++ joinLines failure.lines)

/-- What a run shows, given the session after it. A run that broke off shows nothing. -/
def showOutcome (json : Bool) (source : String) (session : Session) : Outcome → Output × Exit
  | .value value => (showValue json source session value, .code 0)
  | .rejected ds => (showFailure json source session (.rejected ds), .code 2)
  | .failed d => (showFailure json source session (.diagnostic d), .code 2)
  | .tooDeep => (.empty, .aborted .tooDeep)

def showTrace (limit threshold : Nat) (name source : String) : Output :=
  if threshold ≤ LogLevel.debug.value then
    .toStderr (LogRecord.render threshold (Trace.run limit name source))
  else .empty

def runSource (session : Session) (limit threshold : Nat) (json : Bool) (name source : String) :
    Output × Exit × Session :=
  let (outcome, session) := session.run limit source
  let (output, exit) := showOutcome json source session outcome
  (showTrace limit threshold name source ++ output, exit, session)

def inputName : String := "stdio"

/-! ### Conversations -/

structure Conversation where
  session : Session
  /-- The deepest trees that are worked on. -/
  limit : Nat
  threshold : Nat
  json : Bool
  prompt : String
deriving DecidableEq, Repr

namespace Conversation

/-- What is shown before a line is read: the prompt, unless reports are asked for. -/
def asking (talk : Conversation) : Output := if talk.json then .empty else .toStdout talk.prompt

/-- Runs a line; a blank one is skipped. -/
def runLine (talk : Conversation) (line : List Char) : Output × Exit × Conversation :=
  if line.all Text.isBlank then (.empty, .code 0, talk)
  else
    let (output, exit, session) :=
      runSource talk.session talk.limit talk.threshold talk.json inputName (String.ofList line)
    (output, exit, { talk with session := session })

def closing (talk : Conversation) : Output := if talk.json then .empty else .toStdout "\n"

/-- Runs lines one by one to the end. Only a run that breaks off ends the loop early. -/
def run (talk : Conversation) : List (List Char) → Output × Exit
  | [] => (talk.asking ++ talk.closing, .code 0)
  | line :: lines =>
    match talk.runLine line with
    | (output, .aborted reason, _) => (talk.asking ++ output, .aborted reason)
    | (output, .code _, talk') =>
      let (rest, exit) := talk'.run lines
      (talk.asking ++ output ++ rest, exit)

end Conversation

end Command

end ExprLang
