import MflFrontend.Grammar.Program
import MflFrontend.Node.Layout
import MflFrontend.Node.Record
import MflFrontend.Text.Blank

/-!
# Chunks of a session

A chunk is the text that a session reads as one program. It is complete once its last line, without
any comment, ends with a semicolon. The answer to a chunk is its tree, laid out or as JSON, or the
error that it has.
-/

namespace MflFrontend

/-- How a session answers. -/
structure Modes where
  /-- Trees are written as JSON. -/
  json : Bool := false
  /-- Errors are written with their origin. -/
  verbose : Bool := false
  /-- The room that the parse of a chunk has. -/
  room : Nat
  deriving DecidableEq

/-- The tree as it is printed, with a line break at the end. A tree that cannot be looked into is
answered with the reason; no tree that was read from a text is of that sort. -/
def SyntaxTree.print (t : SyntaxTree) (asJson : Bool) : String :=
  let text :=
    if asJson then t.root.record.map fun d => d.json ++ "\n" else t.root.printed 0
  match text with
  | .ok text => text
  | .error fault => fault.message ++ "\n"

/-- The error as a session prints it. Written with its origin, it has the frames of the stack between
the second line and the last; they are of the machine, not of the program, and left out here. -/
def ParseError.print (e : ParseError) (verbose : Bool) : String :=
  if verbose then
    "[error] >>>\nTraceback (most recent call last):\nmfl.mfl_errors.ParseError: " ++
      e.report.display ++ "\n\n"
  else "[error] >>> " ++ e.report.display ++ "\n"

/-- What a chunk comes to. -/
structure ChunkReport where
  /-- Whether the chunk is a program, or why that was not found out. -/
  outcome : Except Failure Bool
  /-- What is printed. -/
  output : String
  /-- The records that were left. -/
  log : List LogRecord

/-- Reads a chunk and answers it. -/
def answerChunk (modes : Modes) (text : String) : ChunkReport :=
  let report := parseText modes.room text
  match report.outcome with
  | .ok tree => ⟨.ok true, tree.print modes.json, report.log⟩
  | .error (.rejected e) => ⟨.ok false, e.print modes.verbose, report.log⟩
  | .error failure => ⟨.error failure, "", report.log⟩

/-- Whether the line, without any comment, ends with a semicolon. -/
def closesChunk (line : List Char) : Bool :=
  (stripRight (line.takeWhile (· != '#'))).getLast? == some ';'

/-- Why completeness cannot be judged. -/
inductive ChunkFault where
  /-- There is no line. -/
  | noLine
  deriving DecidableEq

/-- The wording of a chunk fault. -/
def ChunkFault.message : ChunkFault → String
  | noLine => "list index out of range"

/-- Whether the lines are a complete chunk. -/
def isComplete (lines : List String) : Except ChunkFault Bool :=
  match lines.getLast? with
  | some line => .ok (closesChunk line.toList)
  | none => .error .noLine

end MflFrontend
