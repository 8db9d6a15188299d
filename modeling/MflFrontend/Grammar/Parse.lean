import MflFrontend.Token.Source

/-!
# Reading with one token in hand

A `Parse` step reads from a token source and may leave log records. On entry to and exit from every
step the current token of the source is the next one that belongs to nobody yet; a step that matches
a token moves past it, and a step that only looks does not move.

A step that fails keeps the source where the failure was found and the records left so far.

A step that may find the stack used up is told its *room*, the number of frames that may still be
opened. Taking a token counts with the frames that its source asks for; what a complaint and its
record take is not counted.
-/

namespace MflFrontend

/-- What a parse works on. -/
structure ParseState where
  /-- Where tokens come from. -/
  source : TokenSource
  /-- The records left so far, the oldest first. -/
  log : List LogRecord := []

/-- A step of a parse. -/
abbrev Parse (α : Type) := EStateM Failure ParseState α

namespace Parse

/-- Leaves a log record. -/
def record (r : LogRecord) : Parse Unit :=
  modify fun s => { s with log := s.log ++ [r] }

/-- How the current token is named in a complaint. Its value may be an integer that cannot be
written. -/
def found (t : Token) : Parse String :=
  if t.IsDescribable then return t.describeFound else throw .integerUnwritable

/-- Asks for the next token. The records of a failure are left by whoever reads the text. -/
def advance : Parse Token := fun s =>
  match s.source.next with
  | (.ok t, source) => .ok t { s with source }
  | (.error failure, source) => .error failure { source, log := s.log ++ failure.records }

/-- Moves past the current token. -/
def skip : Parse Unit := do
  let _ ← advance

/-- The current token. -/
def current : Parse Token := fun s =>
  match s.source.current with
  | .ok t => .ok t s
  | .error failure => .error failure s

/-- The line of the current token. -/
def currentLine : Parse Int := do
  return (← get).source.currentLine

/-- Whether the current token is of one of the kinds. -/
def currentIs (kinds : List TokenKind) : Parse Bool := do
  return kinds.contains (← current).kind

/-- The error that a complaint about the current token comes to, after it was logged. -/
def complain (complaint : Complaint) : Parse ParseError := do
  let t ← current
  let line ← currentLine
  let name ← found t
  record (.parseError line (complaint.describe ++ ", found " ++ name))
  return .unexpected complaint t line

/-- Fails with a complaint about the current token. -/
def reject {α : Type} (complaint : Complaint) : Parse α := do
  throw (.rejected (← complain complaint))

/-- Moves past the current token where there is room for the frames that this takes. -/
def skipWithin (room : Nat) : Parse Unit := do
  if (← get).source.pull.frames ≤ room then skip else reject .nestedTooDeeply

/-- Takes the current token if it is of the kind, and fails otherwise. -/
def expect (kind : TokenKind) (what : Expectation) : Parse Token := do
  let t ← current
  if t.kind = kind then
    skip
    return t
  else reject (.expected what)

/-- Takes the current token if it is of the kind, and says whether it did. -/
def accept (kind : TokenKind) : Parse Bool := do
  if ← currentIs [kind] then
    skip
    return true
  else return false

/-- The pulls that are still to come. A loop that takes a token each time goes round no more often
than there are pulls, so the list serves it as a bound. -/
def ahead : Parse (List Pull) := do
  return (← get).source.ahead

end Parse

end MflFrontend
