/-!
Log records. A record has a level and a message, and a `LogFilter` lets the records through that
are at least as severe as its bound.
-/

namespace TxStream

/-- The severity of a log record, the gravest first. -/
inductive LogLevel where
  | error
  | warn
  | info
  | debug
  | trace
deriving DecidableEq

namespace LogLevel

/-- The name of a level. -/
def name : LogLevel → String
  | .error => "ERROR"
  | .warn => "WARN"
  | .info => "INFO"
  | .debug => "DEBUG"
  | .trace => "TRACE"

/-- The rank of a level, lower for graver ones. -/
def rank : LogLevel → Nat
  | .error => 1
  | .warn => 2
  | .info => 3
  | .debug => 4
  | .trace => 5

/-- The levels, the gravest first. -/
def all : List LogLevel := [.error, .warn, .info, .debug, .trace]

end LogLevel

/-- A log record. -/
structure LogRecord where
  /-- How severe the record is. -/
  level : LogLevel
  /-- What it says. -/
  message : String
deriving DecidableEq

/-- The records that are let through: none, or those up to a level. -/
inductive LogFilter where
  /-- Nothing is let through. -/
  | off
  /-- Records of this level and of graver ones are let through. -/
  | upTo (level : LogLevel)
deriving DecidableEq

/-- Whether a filter lets records of a level through. -/
def LogFilter.passes : LogFilter → LogLevel → Bool
  | .off, _ => false
  | .upTo bound, level => level.rank ≤ bound.rank

end TxStream
