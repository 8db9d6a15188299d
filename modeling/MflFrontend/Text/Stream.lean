import MflFrontend.Decimal.Reading
import MflFrontend.Text.Cursor

/-!
# Character streams

A reading head over a fixed text that may be put anywhere. Before the start of the text it reads the
characters counted from the end, as far as there are any; looking ahead shows only what lies inside
the text. Every character read moves the head one place on and the location behind the character.
-/

namespace MflFrontend

/-- Why no character can be read. -/
inductive StreamFault where
  /-- The head stands at or behind the end of the text. -/
  | pastEnd (position line : Int)
  /-- The head stands further before the start than the text is long. -/
  | outOfRange
  deriving DecidableEq

/-- The wording of a stream fault, if its place can be written. -/
def StreamFault.message : StreamFault → String
  | pastEnd position line =>
    "Attempted to read past end of source at position=<" ++ integerText position ++
      ">, line=<" ++ integerText line ++ ">"
  | outOfRange => "string index out of range"

/-- A text and a reading head. -/
structure CharStream extends Location where
  /-- The text. -/
  text : Array Char
  /-- The index of the next character. -/
  position : Int := 0

namespace CharStream

/-- The stream over a text with its head at a given place. -/
def ofText (text : String) (position line column : Int) : CharStream :=
  { line, column, position, text := text.toList.toArray }

/-- The character at an index inside the text. -/
def at? (s : CharStream) (index : Int) : Option Char :=
  match index with
  | .ofNat i => s.text[i]?
  | .negSucc _ => none

/-- The character at a distance from the head. -/
def peek (s : CharStream) (distance : Int) : Option Char := s.at? (s.position + distance)

/-- Whether the head has reached the end of the text. -/
def atEnd (s : CharStream) : Bool := s.text.size ≤ s.position

/-- The character under the head; an index before the text counts from its end. -/
def read (s : CharStream) : Except StreamFault Char :=
  if s.atEnd then .error (.pastEnd s.position s.line)
  else
    match s.at? (if s.position < 0 then s.text.size + s.position else s.position) with
    | some c => .ok c
    | none => .error .outOfRange

/-- Reads the character under the head and moves on; a fault moves nothing. -/
def next (s : CharStream) : Except StreamFault Char × CharStream :=
  match s.read with
  | .ok c => (.ok c, { s with toLocation := s.after c, position := s.position + 1 })
  | .error fault => (.error fault, s)

end CharStream

end MflFrontend
