import MflFrontend.Session.Chunk

/-!
# Sessions

A session reads lines, puts them together to chunks and answers each chunk. It is a state and a
reaction to one event at a time; the state is the modes and the lines of the open chunk, so that a
session with no open chunk depends on what came before through its modes alone.

A chunk is closed by a line that completes it, by a blank line, or at once if it opens with a
comment or with the name of a mode. The words that leave a session and switch its modes are commands
only as the first line of a chunk.
-/

namespace MflFrontend

/-- What reaches a session. -/
inductive Event where
  /-- A line, without its end. -/
  | line (text : String)
  /-- The user breaks off. -/
  | interrupt
  deriving DecidableEq

/-- A session between two events. -/
structure Session where
  /-- How it answers. -/
  modes : Modes
  /-- The lines of the open chunk. -/
  pending : List String := []

/-- How a session goes on. -/
inductive Continuation where
  /-- With the next event. -/
  | session (s : Session)
  /-- Not at all; the user left. -/
  | left
  /-- Not at all; a failure ended it. -/
  | failed (failure : Failure)

/-- What an event comes to. -/
structure Reaction where
  /-- What is printed. -/
  output : String
  /-- The records that were left. -/
  log : List LogRecord
  /-- How the session goes on. -/
  next : Continuation

/-- What is printed when a session starts. -/
def sessionBanner : String := "MFL REPL. Type 'exit' or 'quit' to leave.\n"

/-- What is printed when a session is left. -/
def sessionFarewell : String := "Exiting MFL REPL.\n"

/-- The word in a line: its blanks removed and its letters in lower case. -/
def commandWord (line : String) : List Char := (strip line.toList).map Char.toLower

/-- The words that leave a session. -/
def leavingWords : List (List Char) := [['e', 'x', 'i', 't'], ['q', 'u', 'i', 't']]

/-- The word that switches JSON output. -/
def jsonModeWord : List Char := ['j', 's', 'o', 'n', '-', 'm', 'o', 'd', 'e']

/-- The word that switches verbose errors. -/
def verboseModeWord : List Char :=
  ['v', 'e', 'r', 'b', 'o', 's', 'e', '-', 'm', 'o', 'd', 'e']

/-- The state of a mode as it is printed. -/
def modeState (on : Bool) : String := if on then "ON" else "OFF"

namespace Session

/-- What is printed in front of a line. -/
def prompt (s : Session) : String := if s.pending.isEmpty then ">>> " else "... "

/-- Goes on with no open chunk. -/
def resume (modes : Modes) (output : String) (log : List LogRecord) : Reaction :=
  ⟨output, log, .session { modes }⟩

/-- Answers the chunk of the given lines. -/
def closeChunk (modes : Modes) (lines : List String) : Reaction :=
  let source := strip ("\n".intercalate lines).toList
  let word := source.map Char.toLower
  if source.isEmpty || source.head? == some '#' then resume modes "" []
  else if word = jsonModeWord then
    resume { modes with json := !modes.json }
      ("[mode] >>> JSON output " ++ modeState (!modes.json) ++ "\n") []
  else if word = verboseModeWord then
    resume { modes with verbose := !modes.verbose }
      ("[mode] >>> Verbose mode " ++ modeState (!modes.verbose) ++ "\n") []
  else
    let report := answerChunk modes (String.ofList source)
    match report.outcome with
    | .ok _ => resume modes report.output report.log
    | .error failure => ⟨report.output, report.log, .failed failure⟩

/-- Whether a line is a chunk of its own if it opens one. -/
def standsAlone (word : List Char) : Bool :=
  word = jsonModeWord || word = verboseModeWord || word.head? == some '#'

/-- Whether a chunk that the line was added to is closed by it. -/
def closes (s : Session) (line : String) : Bool :=
  (s.pending.isEmpty && standsAlone (commandWord line)) || closesChunk line.toList ||
    (commandWord line).isEmpty

/-- What a line comes to. -/
def enter (s : Session) (line : String) : Reaction :=
  if s.pending.isEmpty && leavingWords.contains (commandWord line) then
    ⟨sessionFarewell, [], .left⟩
  else
    let lines := s.pending ++ [line]
    if s.closes line then closeChunk s.modes lines
    else ⟨"", [], .session { s with pending := lines }⟩

/-- What the end of the input or an interruption comes to: any open chunk is dropped. -/
def breakOff : Reaction := ⟨"\n" ++ sessionFarewell, [], .left⟩

/-- What an event comes to; `none` is the end of the input. -/
def react (s : Session) : Option Event → Reaction
  | some (.line text) => s.enter text
  | some .interrupt => breakOff
  | none => breakOff

end Session

/-- What a session comes to. -/
structure Transcript where
  /-- Nothing, or the failure that ended the session. -/
  outcome : Except Failure Unit
  /-- What was printed. -/
  output : String
  /-- The records that were left. -/
  log : List LogRecord
  /-- How many events were not used. -/
  unread : Nat

namespace Transcript

/-- The transcript with something before it. -/
def after (output : String) (log : List LogRecord) (t : Transcript) : Transcript :=
  { t with output := output ++ t.output, log := log ++ t.log }

end Transcript

namespace Session

/-- Lets a session react to the events, and then to their end. -/
def run (s : Session) : List Event → Transcript
  | [] => ⟨.ok (), s.prompt ++ breakOff.output, [], 0⟩
  | event :: events =>
    let reaction := s.react (some event)
    let printed := s.prompt ++ reaction.output
    match reaction.next with
    | .session next => (next.run events).after printed reaction.log
    | .left => ⟨.ok (), printed, reaction.log, events.length⟩
    | .failed failure => ⟨.error failure, printed, reaction.log, events.length⟩

/-- A whole session, from its banner on. -/
def start (modes : Modes) (events : List Event) : Transcript :=
  (({ modes } : Session).run events).after sessionBanner []

end Session

end MflFrontend
