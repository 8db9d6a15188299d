/-!
# Places in a text

A `Location` is a line and a column. A `Cursor` is a location together with the characters that are
still to come; reading moves it forward only. `Cursor.pass n` is the cursor behind the next `n`
characters.
-/

namespace MflFrontend

/-- A line and a column, both counted from one. -/
structure Location where
  /-- The line. -/
  line : Int := 1
  /-- The column. -/
  column : Int := 1
  deriving DecidableEq

namespace Location

/-- The location behind a character: a line feed opens a new line. -/
def after (l : Location) (c : Char) : Location :=
  if c = '\n' then ⟨l.line + 1, 1⟩ else ⟨l.line, l.column + 1⟩

/-- The location behind several characters. -/
def afterAll (l : Location) (cs : List Char) : Location := cs.foldl after l

@[simp] theorem afterAll_nil (l : Location) : l.afterAll [] = l := rfl

@[simp] theorem afterAll_cons (l : Location) (c : Char) (cs : List Char) :
    l.afterAll (c :: cs) = (l.after c).afterAll cs := rfl

@[simp] theorem afterAll_append (l : Location) (cs ds : List Char) :
    l.afterAll (cs ++ ds) = (l.afterAll cs).afterAll ds :=
  List.foldl_append

end Location

/-- A place in a text and what follows it. -/
structure Cursor extends Location where
  /-- How many characters lie before the cursor. -/
  offset : Nat := 0
  /-- The characters that are still to come. -/
  rest : List Char
  deriving DecidableEq

namespace Cursor

/-- The cursor at the start of a text. -/
def start (text : String) : Cursor := { rest := text.toList }

/-- The cursor behind the next `n` characters, or at the end if there are fewer. -/
def pass (c : Cursor) (n : Nat) : Cursor where
  toLocation := c.toLocation.afterAll (c.rest.take n)
  offset := c.offset + (c.rest.take n).length
  rest := c.rest.drop n

@[simp] theorem rest_pass (c : Cursor) (n : Nat) : (c.pass n).rest = c.rest.drop n := rfl

@[simp] theorem pass_zero (c : Cursor) : c.pass 0 = c := by
  simp [pass]

/-- Passing moves a cursor forward only. -/
theorem length_rest_pass_le (c : Cursor) (n : Nat) :
    (c.pass n).rest.length ≤ c.rest.length := by
  simp

end Cursor

end MflFrontend
