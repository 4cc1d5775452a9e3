import OnePass.Text.Bytes
set_option autoImplicit false

/-!
# The log

What a run says about itself while it works.  Warnings and errors are always kept; how much else
is kept is a matter of settings.
-/

namespace OnePass

/-- How important a line of the log is. -/
inductive LogLevel where
  | info
  | debug
  | warn
  | error
  deriving DecidableEq, Repr, Inhabited

/-- The name of a level. -/
def LogLevel.name : LogLevel → Bytes
  | .info => text "INFO"
  | .debug => text "DEBUG"
  | .warn => text "WARN"
  | .error => text "ERROR"

/-- A line of the log. -/
structure LogLine where
  level : LogLevel
  message : Bytes
  deriving DecidableEq, Repr, Inhabited

namespace LogLine

/-- The text of a line.  The stamp stands between level and message. -/
def render (stamp : Bytes) (l : LogLine) : Bytes :=
  Bytes.line (text "[" ++ l.level.name ++ text "] " ++ stamp ++ l.message)

end LogLine

/-- How much of the log is kept. -/
structure Verbosity where
  /-- whether progress is kept -/
  verbose : Bool
  /-- whether details are kept -/
  debug : Bool
  deriving DecidableEq, Repr, Inhabited

/-- Whether lines of a level are kept. -/
def Verbosity.keeps (v : Verbosity) : LogLevel → Bool
  | .info => v.verbose
  | .debug => v.debug
  | .warn | .error => true

/-- A log: how much is kept, and the lines so far. -/
structure Log where
  /-- nothing at all is kept without a verbosity -/
  verbosity : Option Verbosity
  lines : List LogLine := []
  deriving DecidableEq, Repr, Inhabited

namespace Log

/-- Whether details are kept. -/
def isDebugging (l : Log) : Bool := l.verbosity.any (·.debug)

/-- Adds a line if it is kept. -/
def add (l : Log) (level : LogLevel) (message : Bytes) : Log :=
  if l.verbosity.any (·.keeps level) then { l with lines := l.lines ++ [⟨level, message⟩] } else l

/-- The text of the log, with the stamps left out. -/
def render (l : Log) : Bytes := l.lines.flatMap (LogLine.render [])

end Log

end OnePass
