import MflFrontend.Command.Run

/-!
# The program

Carries out the plan of a command line: writes a report, or holds a session line by line. All
decisions are made elsewhere.
-/

namespace MflFrontend.Console

/-- The fault that an error of the operating system stands for. -/
def fileFaultOf (path : String) : IO.Error → FileFault
  | .inappropriateType _ code _ => if code = 21 then .isDirectory path else .notDirectory path
  | .invalidArgument _ _ _ => .embeddedNul
  | .resourceExhausted _ _ _ => .nameTooLong path
  | _ => .notFound path

/-- The bytes of a file. -/
def readBytes (path : String) : IO (Except FileFault (List UInt8)) := do
  try
    return .ok (← IO.FS.readBinFile path).toList
  catch e =>
    return .error (fileFaultOf path e)

/-- The event that a line of input is; the end of the input is an empty line without its end. -/
def eventOf (line : String) : Option Event :=
  let cs := line.toList
  if cs.isEmpty then none
  else some (.line (String.ofList (if cs.getLast? == some '\n' then cs.dropLast else cs)))

/-- Holds a session over the standard streams. -/
partial def converse (logging : Logging) (s : Session) : IO UInt32 := do
  let output ← IO.getStdout
  output.putStr s.prompt
  output.flush
  let reaction := s.react (eventOf (← (← IO.getStdin).getLine))
  output.putStr reaction.output
  output.flush
  IO.eprint (logging.writeAll reaction.log)
  match reaction.next with
  | .session next => converse logging next
  | .left => return 0
  | .failed failure =>
    IO.eprintln failure.message
    return 1

/-- Writes a report and gives the status of the program. -/
def writeReport (report : RunReport) : IO UInt32 := do
  IO.print report.stdout
  IO.eprint report.stderr
  match report.ending with
  | .exited status => return status.toUInt32
  | .returned _ => return 0
  | .failed fault =>
    IO.eprintln fault.message
    return 1

end MflFrontend.Console

/-- The room that the program has: the stack of a thousand frames, but for those of the interpreter
and of the program's own start. -/
def MflFrontend.Console.room : Nat := 990

open MflFrontend MflFrontend.Console in
/-- Runs the program on the words of its command line. -/
def main (arguments : List String) : IO UInt32 := do
  if isUnderTest arguments then return 0
  match Plan.ofArguments room arguments with
  | .session logging modes =>
    IO.print sessionBanner
    converse logging { modes }
  | .source logging request =>
    let bytes ← if request.literal then pure (.ok []) else readBytes request.source
    let report := (request.run fun _ => bytes).report logging 0
    writeReport { report with ending := report.ending.leave }
  | plan => writeReport (plan.run [] fun path => .error (.notFound path))
