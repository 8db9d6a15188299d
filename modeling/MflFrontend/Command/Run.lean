import MflFrontend.Command.Options
import MflFrontend.Files.Store
import MflFrontend.Logging
import MflFrontend.Session.Basic

/-!
# Runs of the program

A run shows one source, holds one session, or is refused. Its report has all that can be seen of it:
the two outputs, how records were dealt with, how many events of a session were not used, and how it
ended.

Nothing is printed for a source before all of it was read, so a source with an error prints nothing.
What a run has printed by the time that it fails stays printed.

The room of a run is that which a parse would have in its place. The calls on the way to the parse
that a run makes are taken off it.
-/

namespace MflFrontend

/-- Why a run cannot answer. -/
inductive RunFault where
  /-- Reading the program failed. -/
  | reading (failure : Failure)
  /-- The source is a file of another kind. -/
  | unsupportedFile
  /-- The source cannot be read. -/
  | unreadable (fault : ReadFault)
  deriving DecidableEq

/-- The wording of a run fault. -/
def RunFault.message : RunFault → String
  | reading failure => failure.message
  | unsupportedFile => "Only .mfl files are supported."
  | unreadable fault => fault.message

/-- Whether the command line reports the fault and ends; the others end it by themselves. -/
def RunFault.isReported : RunFault → Bool
  | reading (.rejected _) => true
  | reading _ => false
  | unsupportedFile => false
  | unreadable (.file .embeddedNul) => false
  | unreadable _ => true

/-- How a run ended. -/
inductive Ending where
  /-- It came back with a result: nothing, a truth value or a status. -/
  | returned (result : Value)
  /-- It left the program with a status. -/
  | exited (status : Nat)
  /-- A fault ended it. -/
  | failed (fault : RunFault)
  deriving DecidableEq

/-- What can be seen of a run. -/
structure RunReport where
  /-- How it ended. -/
  ending : Ending
  /-- What was written to the output. -/
  stdout : String := ""
  /-- What was written to the error output. -/
  stderr : String := ""
  /-- How records were dealt with at the end. -/
  logging : Logging := {}
  /-- How many events were not used. -/
  unread : Nat := 0

/-- Answers one chunk, without a session. -/
def runChunk (modes : Modes) (text : String) : RunReport :=
  let report := answerChunk modes text
  let logging : Logging := {}
  { ending :=
      match report.outcome with
      | .ok accepted => .returned (.bool accepted)
      | .error failure => .failed (.reading failure)
    stdout := report.output
    stderr := logging.writeAll report.log
    logging }

/-- Holds a session. -/
def runSession (logging : Logging) (modes : Modes) (result : Value) (events : List Event) :
    RunReport :=
  let transcript := Session.start modes events
  { ending :=
      match transcript.outcome with
      | .ok () => .returned result
      | .error failure => .failed (.reading failure)
    stdout := transcript.output
    stderr := logging.writeAll transcript.log
    logging
    unread := transcript.unread }

/-- The room that is left to the parse of a chunk where a session is held. -/
def sessionRoom (room : Nat) : Nat := room - 3

/-- Holds a session that keeps no records, since it prints the errors itself. -/
def runPlainSession (room : Nat) (events : List Event) : RunReport :=
  runSession { level := .critical } { room := sessionRoom room } .none events

/-- How the name of a source file ends. -/
def sourceEnding : List Char := ['.', 'm', 'f', 'l']

/-- What is to be shown, and how. -/
structure ShowRequest where
  /-- The source: a text, or the name of a file. -/
  source : String
  /-- Whether the source is a text. -/
  literal : Bool := false
  /-- Whether the tree is written as JSON. -/
  json : Bool := false
  /-- Whether the tokens are written, and no tree. -/
  tokens : Bool := false
  /-- The room that the parse of the source has. -/
  room : Nat

/-- What showing a source comes to. -/
structure Shown where
  /-- Nothing, or why not all was shown. -/
  outcome : Except RunFault Unit
  /-- What was printed until then. -/
  printed : String := ""
  /-- The records that were left. -/
  log : List LogRecord := []

/-- A token as a line of its own, with its place. -/
def Token.dumpLine (t : Token) : String :=
  integerText t.line ++ ":" ++ integerText t.column ++ "\t" ++ t.display ++ "\n"

namespace Shown

/-- A text that is printed. -/
def text (printed : String) (log : List LogRecord) : Shown := ⟨.ok (), printed, log⟩

/-- A fault before anything is printed. -/
def fault (fault : RunFault) (log : List LogRecord) : Shown := { outcome := .error fault, log }

/-- What is shown behind a text that was printed before. -/
def after (printed : String) (s : Shown) : Shown := { s with printed := printed ++ s.printed }

/-- Prints tokens one by one, as long as they can be written. -/
def dump : List Token → Shown
  | [] => text "" []
  | t :: ts =>
    if t.IsWritable then (dump ts).after t.dumpLine else fault (.reading .integerUnwritable) []

end Shown

/-- A way to get at the bytes of files. -/
abbrev FileReader := String → Except FileFault (List UInt8)

namespace ShowRequest

/-- The text to be shown. Files have to be named as sources of the language. -/
def sourceText (r : ShowRequest) (readFile : FileReader) : Except RunFault String :=
  if r.literal then .ok r.source
  else if !sourceEnding.isSuffixOf r.source.toList then .error .unsupportedFile
  else (readSource (readFile r.source)).mapError .unreadable

/-- Shows the tokens or the tree of a text. -/
def showText (r : ShowRequest) (text : String) : Shown :=
  if r.tokens then
    match tokenize text with
    | .ok tokens => .dump tokens
    | .error failure => .fault (.reading failure) failure.records
  else
    let report := parseText r.room text
    match report.outcome with
    | .ok tree => .text (tree.print r.json) report.log
    | .error failure => .fault (.reading failure) report.log

/-- Shows the source. -/
def run (r : ShowRequest) (readFile : FileReader) : Shown :=
  match r.sourceText readFile with
  | .ok text => r.showText text
  | .error fault => .fault fault []

end ShowRequest

/-- Shows a source, without a command line. -/
def runShow (r : ShowRequest) (readFile : FileReader) : RunReport :=
  let shown := r.run readFile
  let logging : Logging := {}
  { ending :=
      match shown.outcome with
      | .ok () => .returned .none
      | .error fault => .failed fault
    stdout := shown.printed
    stderr := logging.writeAll shown.log
    logging }

namespace Options

/-- The level of the records that are written. -/
def severity (o : Options) : Severity :=
  if o.has .verbose then .debug else if o.has .quiet then .critical else .warning

/-- The source to be shown in the given room, unless a session is to be held. -/
def request? (o : Options) (room : Nat) : Option ShowRequest :=
  if o.has .session then none
  else o.source?.map fun source => ⟨source, o.has .literal, o.has .json, o.has .tokens, room⟩

/-- How a session that the options ask for answers, in the given room. -/
def modes (o : Options) (room : Nat) : Modes := ⟨o.has .json, o.has .verbose, room⟩

/-- What a session that the options ask for does with records: unless all are wanted it writes none,
since it prints the errors itself. -/
def sessionLogging (o : Options) : Logging :=
  .configured (if o.has .verbose then .debug else .critical)

end Options

/-- The report of a shown source on the command line: the status tells whether it was shown. -/
def Shown.report (s : Shown) (logging : Logging) (unread : Nat) : RunReport :=
  let records := logging.writeAll s.log
  match s.outcome with
  | .ok () => ⟨.returned (.int 0), s.printed, records, logging, unread⟩
  | .error fault =>
    if fault.isReported then
      ⟨.returned (.int 1), s.printed, records ++ "[error] >>> " ++ fault.message ++ "\n", logging,
        unread⟩
    else ⟨.failed fault, s.printed, records, logging, unread⟩

/-- The room that is left to the parse of a source on the command line. -/
def showRoom (room : Nat) : Nat := room - 1

/-- What a command line asks for. -/
inductive Plan where
  /-- A session. -/
  | session (logging : Logging) (modes : Modes)
  /-- A source to be shown. -/
  | source (logging : Logging) (request : ShowRequest)
  /-- The help. -/
  | help
  /-- Nothing that could be done. -/
  | refused (fault : UsageFault)

namespace Plan

/-- What the options ask for. -/
def ofOptions (o : Options) (room : Nat) : Plan :=
  match o.request? (showRoom room) with
  | none => .session o.sessionLogging (o.modes (sessionRoom room))
  | some request => .source (.configured o.severity) request

/-- What a command line asks for. Without any words it is a session. -/
def ofArguments (room : Nat) (arguments : List String) : Plan :=
  if arguments.isEmpty then .session (.configured .critical) { room := sessionRoom room }
  else
    match Options.ofArguments arguments with
    | .error .help => .help
    | .error (.fault fault) => .refused fault
    | .ok options => ofOptions options room

/-- Carries out a plan. -/
def run (events : List Event) (readFile : FileReader) : Plan → RunReport
  | session logging modes => runSession logging modes (.int 0) events
  | source logging request => (request.run readFile).report logging events.length
  | help => { ending := .exited 0, stdout := helpText, unread := events.length }
  | refused fault => { ending := .exited 2, stderr := fault.report, unread := events.length }

end Plan

/-- Runs a command line. -/
def runCommand (room : Nat) (arguments : List String) (events : List Event)
    (readFile : FileReader) : RunReport :=
  (Plan.ofArguments room arguments).run events readFile

/-- The status that a command's result leaves the program with. -/
def Ending.leave : Ending → Ending
  | .returned (.int status) => .exited status.toNat
  | ending => ending

/-- Whether the word occurs somewhere in the text. -/
def occursIn (word : List Char) : List Char → Bool
  | [] => word.isEmpty
  | c :: cs => word.isPrefixOf (c :: cs) || occursIn word cs

/-- Whether a test runner, which names itself in the words, looks at the program. It does nothing
then. -/
def isUnderTest (arguments : List String) : Bool :=
  arguments.any fun argument => occursIn ['p', 'y', 't', 'e', 's', 't'] argument.toList

/-- Runs the program on a command line. -/
def runProgram (room : Nat) (arguments : List String) (events : List Event)
    (readFile : FileReader) : RunReport :=
  if isUnderTest arguments then { ending := .returned .none, unread := events.length }
  else
    let report := runCommand room arguments events readFile
    { report with ending := report.ending.leave }

end MflFrontend
