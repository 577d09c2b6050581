/-!
Log entries. What a run logs is computed from what it did, apart from the
results themselves; which entries are shown depends on a level.
-/

namespace ConstructorSynthesis

inductive LogLevel where
  | error
  | warn
  | info
  | debug
  | trace
deriving DecidableEq, Repr, Inhabited

namespace LogLevel

def label : LogLevel → String
  | error => "ERROR"
  | warn => "WARN"
  | info => "INFO"
  | debug => "DEBUG"
  | trace => "TRACE"

/-- How much a level shows; a severe level shows little. -/
def verbosity : LogLevel → Nat
  | error => 0
  | warn => 1
  | info => 2
  | debug => 3
  | trace => 4

end LogLevel

structure LogEntry where
  level : LogLevel
  channel : String
  message : String
deriving DecidableEq, Repr, Inhabited

def LogEntry.line (e : LogEntry) : String := e.level.label ++ " " ++ e.channel ++ ": " ++ e.message

/-- The lines of the entries that are shown at a level. -/
def shownLines (level : LogLevel) (entries : List LogEntry) : List String :=
  (entries.filter fun e => e.level.verbosity ≤ level.verbosity).map LogEntry.line

end ConstructorSynthesis
