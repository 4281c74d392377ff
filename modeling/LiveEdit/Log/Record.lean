/-! Log records, before anything filters them. -/

namespace LiveEdit

inductive LogLevel where
  | error
  | warn
  | info
  | debug
  | trace
  deriving DecidableEq, Repr

namespace LogLevel

def text : LogLevel → String
  | .error => "ERROR"
  | .warn => "WARN"
  | .info => "INFO"
  | .debug => "DEBUG"
  | .trace => "TRACE"

/-- How much detail a level stands for, from 1 for errors to 5 for traces. -/
def verbosity : LogLevel → Nat
  | .error => 1
  | .warn => 2
  | .info => 3
  | .debug => 4
  | .trace => 5

end LogLevel

/-- An activity within which the program speaks, and the part of the program that it belongs to. -/
structure LogSpan where
  target : String
  name : String
  /-- What is known of the activity, under the names of the facts. -/
  fields : List (String × String) := []
  deriving DecidableEq, Repr

structure LogRecord where
  level : LogLevel
  /-- The part of the program that speaks. -/
  target : String
  message : String
  /-- What the message is about. -/
  fields : List (String × String) := []
  spans : List LogSpan := []
  deriving DecidableEq, Repr

/-- The level of every activity. -/
def LogSpan.level : LogLevel := .info

/-- A record has its message as a field too. -/
def LogRecord.fieldNames (r : LogRecord) : List String := "message" :: r.fields.map (·.1)

end LiveEdit
