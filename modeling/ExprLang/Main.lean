import ExprLang.Command.Program

/-! # Command line

Reads what the program needs from the system, runs it, and writes what it has to say. -/

namespace ExprLang.Main

def lookup (path : Path) : IO FileEntry := do
  try
    return .file (← IO.FS.readBinFile path.text)
  catch error =>
    match error with
    | .noFileOrDirectory .. => return .missing
    | .inappropriateType _ 21 _ => return .directory
    | .inappropriateType .. => return .belowFile
    | error => throw error

/-- The files that the program may open: its settings and its script. -/
def paths (env : Environment) (arguments : List String) : List Path :=
  match Command.readArguments arguments with
  | .error _ => []
  | .ok invocation =>
    (Command.settingsFile env invocation).2 ::
      ((invocation.file.filter (· ≠ "")).map Path.ofText).toList

def write (output : Output) : IO Unit := do
  let stdout ← IO.getStdout
  stdout.putStr output.stdout
  stdout.flush
  (← IO.getStderr).putStr output.stderr

def abortMessage : Abort → String
  | .notText => "the file is not UTF-8 text"
  | .settingsDirectory => "the settings file is a directory"
  | .settingsDefect .number => "the settings file has a number or a date without a value"
  | .settingsDefect .codePoint => "the settings file has an escape past the last character"
  | .settingsDefect .wideCodePoint => "the settings file has an escape past the last character"
  | .settingsDefect .nestedKey => "the settings file has a key that holds a list or a map"
  | .noSource => "there is no source to run"
  | .tooDeep => "the expression is nested too deeply"

def leave : Exit → IO UInt32
  | .code code => return code.toUInt32
  | .aborted reason => do
    (← IO.getStderr).putStr (abortMessage reason ++ "\n")
    return 1

/-- Reads and runs lines until the input ends. -/
partial def converse (input : IO.FS.Stream) (talk : Command.Conversation) : IO UInt32 := do
  write talk.asking
  let line ← input.getLine
  if line.isEmpty then
    write talk.closing
    return 0
  let (output, exit, talk) := talk.runLine (Text.unifyNewlines line.toList)
  write output
  match exit with
  | .code _ => converse input talk
  | exit => leave exit

def depthLimit : Nat := 1000

def run (arguments : List String) : IO UInt32 := do
  let debug := (← IO.getEnv "KON_DEBUG").getD "" != ""
  let outside : Environment :=
    ⟨(← IO.currentDir).toString, fun _ => .missing, debug, depthLimit⟩
  let found ← (paths outside arguments).mapM fun path => do return (path, ← lookup path)
  let env := { outside with lookup := fun path => (found.lookup path).getD .missing }
  match Command.start env arguments with
  | .finished output exit =>
    write output
    leave exit
  | .conversation output talk =>
    write output
    converse (← IO.getStdin) talk

end ExprLang.Main

def main (arguments : List String) : IO UInt32 := ExprLang.Main.run arguments
