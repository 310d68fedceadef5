/-! # Options of the command line

The options with their spellings, the texts that explain them, and the version that one of them
shows. -/

namespace ExprLang

inductive CommandOption where
  | help
  | version
  | file
  | interactive
  | eval
  | showTokens
  | showTree
  | json
  | config
deriving DecidableEq, Repr

namespace CommandOption

/-- All spellings, in the order of the usage text. -/
def spellings : List (String × CommandOption) :=
  [("-h", help), ("--help", help), ("-v", version), ("--version", version), ("-f", file),
    ("--file", file), ("-i", interactive), ("--interactive", interactive), ("-e", eval),
    ("--eval", eval), ("--show-tokens", showTokens), ("--show-ast", showTree), ("--json", json),
    ("--config", config)]

def ofSpelling? (spelling : String) : Option CommandOption := spellings.lookup spelling

/-- The option in messages: all its spellings. -/
def label (option : CommandOption) : String :=
  "/".intercalate ((spellings.filter (·.2 = option)).map Prod.fst)

def takesValue : CommandOption → Bool
  | file | eval | config => true
  | _ => false

/-- The options that say where the source comes from; exactly one of them has to be given. -/
def modes : List CommandOption := [file, interactive, eval]

end CommandOption

inductive ArgumentError where
  | ambiguous (argument : String) (candidates : List String)
  | missingValue (option : CommandOption)
  | ignoredValue (option : CommandOption) (value : String)
  | conflict (option other : CommandOption)
  | noMode
  | unrecognized (arguments : List String)
deriving DecidableEq, Repr

namespace Command

def usage : String :=
  "usage: kon [-h] [-v] (-f PATH | -i | -e SOURCE) [--show-tokens] [--show-ast]\n" ++
    "           [--json] [--config PATH]\n"

def help : String :=
  usage ++
    "\n" ++
    "Kon expression interpreter\n" ++
    "\n" ++
    "options:\n" ++
    "  -h, --help            show this help message and exit\n" ++
    "  -v, --version         show program's version number and exit\n" ++
    "  -f PATH, --file PATH  выполнить файл со скриптом\n" ++
    "  -i, --interactive     интерактивный режим (REPL)\n" ++
    "  -e SOURCE, --eval SOURCE\n" ++
    "                        вычислить выражение из аргумента\n" ++
    "  --show-tokens         вывести токены в stderr\n" ++
    "  --show-ast            вывести дерево выражения в stderr\n" ++
    "  --json                JSON-отчёт о прогоне в stdout\n" ++
    "  --config PATH         файл настроек (по умолчанию ./kon.yaml)\n"

end Command

namespace Version

/-- The names that the program may be installed under, the preferred one first. -/
def distributions : List String := ["kon", "kon-lang"]

/-- The version of a program that runs without being installed. -/
def unknown : String := "0.0.0"

/-- The version, given the versions of all installed distributions by name. -/
def ofInstalled (installed : List (String × String)) : String :=
  (distributions.findSome? fun name => installed.lookup name).getD unknown

def current : String := "0.1.0"

end Version

end ExprLang
