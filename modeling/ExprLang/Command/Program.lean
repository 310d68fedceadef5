import ExprLang.Command.Arguments
import ExprLang.Command.Files
import ExprLang.Command.Output
import ExprLang.Config.Settings

/-! # The program

The whole program as a function: from the arguments and what stands around it to what it writes and
how it ends. -/

namespace ExprLang

structure Environment where
  /-- The working directory as it is shown. -/
  workingDirectory : String
  lookup : Path → FileEntry
  /-- Whether the debug switch is on. -/
  debug : Bool
  /-- The deepest trees that there is room for. -/
  depthLimit : Nat

namespace Command

/-- The text of a file, with unified newlines. -/
def fileText? (bytes : ByteArray) : Option (List Char) :=
  (decodeText? bytes).map fun text => Text.unifyNewlines text.toList

/-! ### Settings -/

/-- The settings file to look for, as it is shown and as it is opened. -/
def settingsFile (env : Environment) (invocation : Invocation) : String × Path :=
  match invocation.config.filter (· ≠ "") with
  | some config => ((Path.ofText config).text, Path.ofText config)
  | none =>
    (env.workingDirectory ++ "/" ++ Settings.defaultFile, Path.ofText Settings.defaultFile)

/-- The contents of the settings file; a path that leads nowhere counts as no file. -/
def settingsContents (env : Environment) (path : Path) : Except Abort (Option (List Char)) :=
  match env.lookup path with
  | .missing => .ok none
  | .belowFile => .ok none
  | .directory => .error .settingsDirectory
  | .file bytes =>
    match fileText? bytes with
    | some text => .ok (some text)
    | none => .error .notText

/-! ### Scripts -/

inductive ScriptError where
  | missing (path : Path)
  | directory (path : Path)
  | belowFile (path : Path)
deriving DecidableEq, Repr

def ScriptError.message : ScriptError → String
  | missing path => "script `" ++ path.text ++ "` was not found"
  | directory path =>
    "failed to read script `" ++ path.text ++ "`: [Errno 21] Is a directory: " ++
      Text.inspect path.text
  | belowFile path =>
    "failed to read script `" ++ path.text ++ "`: [Errno 20] Not a directory: " ++
      Text.inspect path.text

def runScript (env : Environment) (session : Session) (threshold : Nat) (json : Bool) (path : Path) :
    Output × Exit :=
  let refuse (error : ScriptError) : Output × Exit :=
    (.toStderr (joinLines (Failure.script error.message).lines), .code 2)
  match env.lookup path with
  | .missing => refuse (.missing path)
  | .directory => refuse (.directory path)
  | .belowFile => refuse (.belowFile path)
  | .file bytes =>
    match fileText? bytes with
    | none => (.empty, .aborted .notText)
    | some text =>
      let (output, exit, _) :=
        runSource session env.depthLimit threshold json path.name (String.ofList text)
      (output, exit)

/-! ### The whole program -/

/-- Options on the command line add to those in the settings. -/
def runOptions (invocation : Invocation) (settings : Settings) : RunOptions where
  showTokens := invocation.showTokens || settings.showTokens
  showTree := invocation.showTree || settings.showTree

/-- What the program comes to before it reads any line. -/
inductive Task where
  /-- It is over. -/
  | finished (output : Output) (exit : Exit)
  /-- It goes on line by line. -/
  | conversation (output : Output) (talk : Conversation)
deriving DecidableEq, Repr

def Task.after (output : Output) : Task → Task
  | finished more exit => finished (output ++ more) exit
  | conversation more talk => conversation (output ++ more) talk

/-- Starts what an invocation asks for. A file without a name is no file. -/
def perform (env : Environment) (invocation : Invocation) (settings : Settings) (threshold : Nat) :
    Task :=
  let session := Session.start (runOptions invocation settings)
  let json := invocation.json
  if invocation.interactive then
    .conversation .empty ⟨session, env.depthLimit, threshold, json, settings.prompt⟩
  else
    match invocation.file.filter (· ≠ ""), invocation.source with
    | some file, _ =>
      let (output, exit) := runScript env session threshold json (Path.ofText file)
      .finished output exit
    | none, some source =>
      let (output, exit, _) := runSource session env.depthLimit threshold json "argv" source
      .finished output exit
    | none, none => .finished .empty (.aborted .noSource)

def opening (threshold : Nat) : Output :=
  .toStderr (LogRecord.render threshold [⟨.info, "kon: " ++ Version.current⟩])

def invoke (env : Environment) (invocation : Invocation) : Task :=
  let (shownPath, path) := settingsFile env invocation
  match settingsContents env path with
  | .error reason => .finished .empty (.aborted reason)
  | .ok contents =>
    match Settings.read shownPath contents with
    | .error (.refused error) =>
      .finished (.toStderr (joinLines (Failure.settings error.message).lines)) (.code 2)
    | .error (.broken defect) => .finished .empty (.aborted (.settingsDefect defect))
    | .ok settings =>
      let threshold := Logger.effectiveThreshold settings.logLevel.value env.debug
      (perform env invocation settings threshold).after (opening threshold)

def start (env : Environment) (arguments : List String) : Task :=
  match readArguments arguments with
  | .error .help => .finished (.toStdout help) (.code 0)
  | .error .version => .finished (.toStdout ("kon " ++ Version.current ++ "\n")) (.code 0)
  | .error (.refused error) =>
    .finished (.toStderr (usage ++ "kon: error: " ++ error.message ++ "\n")) (.code 2)
  | .ok invocation => invoke env invocation

def run (env : Environment) (arguments : List String) (input : String) : Output × Exit :=
  match start env arguments with
  | .finished output exit => (output, exit)
  | .conversation output talk =>
    let (rest, exit) := talk.run (Text.lines (Text.unifyNewlines input.toList))
    (output ++ rest, exit)

end Command

end ExprLang
