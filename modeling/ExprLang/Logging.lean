/-! # Log records

A record has a level and a message; a threshold decides which records are shown. -/

namespace ExprLang

inductive LogLevel where
  | debug
  | info
  | warning
  | error
  | critical
deriving DecidableEq, Repr

namespace LogLevel

def name : LogLevel → String
  | debug => "DEBUG"
  | info => "INFO"
  | warning => "WARNING"
  | error => "ERROR"
  | critical => "CRITICAL"

/-- The rank of a level, in steps of ten. -/
def value : LogLevel → Nat
  | debug => 10
  | info => 20
  | warning => 30
  | error => 40
  | critical => 50

def all : List LogLevel := [debug, info, warning, error, critical]

def ofName? (name : String) : Option LogLevel := all.find? (·.name == name)

end LogLevel

structure LogRecord where
  level : LogLevel
  message : String
deriving DecidableEq, Repr

namespace LogRecord

def line (record : LogRecord) : String := "[" ++ record.level.name ++ "] " ++ record.message ++ "\n"

def render (threshold : Nat) (records : List LogRecord) : String :=
  String.join ((records.filter (threshold ≤ ·.level.value)).map line)

end LogRecord

/-- The state of the logger: its threshold, how many handlers it has, and whether it has been set up
before. -/
structure Logger where
  threshold : Nat
  handlers : Nat
  configured : Bool
deriving DecidableEq, Repr

namespace Logger

def initial : Logger := ⟨0, 0, false⟩

/-- The threshold in force: the debug switch wins over any level. -/
def effectiveThreshold (level : Nat) (debug : Bool) : Nat :=
  if debug then LogLevel.debug.value else level

/-- Sets the threshold. Only the first call may add a handler, and only if there is none. -/
def setup (logger : Logger) (level : Nat) (debug : Bool) : Logger where
  threshold := effectiveThreshold level debug
  handlers :=
    if !logger.configured && logger.handlers == 0 then 1 else logger.handlers
  configured := true

def addHandler (logger : Logger) : Logger := { logger with handlers := logger.handlers + 1 }

def dropHandlers (logger : Logger) : Logger := { logger with handlers := 0 }

end Logger

end ExprLang
