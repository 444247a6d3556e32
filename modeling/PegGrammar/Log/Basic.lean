/-!
# Log records

Compilers and programs record what they do. Whether a record is shown is for others to decide.
-/

namespace PegGrammar

/-- How much a record matters, from the most to the least. -/
inductive LogLevel where
  | error
  | warn
  | info
  | debug
  | trace
  deriving DecidableEq, Repr

namespace LogLevel

def all : List LogLevel := [.error, .warn, .info, .debug, .trace]

def name : LogLevel → String
  | .error => "ERROR"
  | .warn => "WARN"
  | .info => "INFO"
  | .debug => "DEBUG"
  | .trace => "TRACE"

def rank : LogLevel → Nat
  | .error => 1
  | .warn => 2
  | .info => 3
  | .debug => 4
  | .trace => 5

end LogLevel

/-- A record: its level, the part of the program that made it, and its text. -/
structure LogRecord where
  level : LogLevel
  target : String
  message : String
  deriving DecidableEq, Repr

def LogRecord.compiler : String := "parsejoy_grammar::compiler"

def LogRecord.parser : String := "parsejoy_grammar::parser"

end PegGrammar
