import MflFrontend.Diagnosis

/-!
# Where log records go

Records of at least the chosen level are written to the error output, one a line. A handler writes a
record with its level and channel. Where no handler is installed the bare message is written, and
only from warnings on.
-/

namespace MflFrontend

/-- How records are dealt with. -/
structure Logging where
  /-- The level that was chosen. -/
  level : Severity := .unset
  /-- How many handlers are installed. -/
  handlers : Nat := 0
  deriving DecidableEq

namespace Logging

/-- One handler at the given level. -/
def configured (level : Severity) : Logging := ⟨level, 1⟩

/-- The level from which on records are kept; without a choice these are warnings. -/
def threshold (l : Logging) : Severity := if l.level = .unset then .warning else l.level

/-- What a record puts on the error output. -/
def write (l : Logging) (r : LogRecord) : String :=
  if r.severity.rank < l.threshold.rank then ""
  else if l.handlers = 0 then
    if r.severity.rank < Severity.warning.rank then "" else r.message ++ "\n"
  else "[" ++ r.severity.name ++ "] " ++ r.channel ++ ": " ++ r.message ++ "\n"

/-- What several records put on the error output. -/
def writeAll (l : Logging) (records : List LogRecord) : String :=
  String.join (records.map l.write)

end Logging

end MflFrontend
