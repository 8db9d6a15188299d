import MflFrontend.Text.Stream
import MflFrontend.Token.Lexeme

/-!
# From text to tokens

`Cursor.scan` reads one token behind any trivia. A `Lexer` remembers the last token that was read;
a failed reading leaves that token as it was and the cursor where the reading stopped.

`Cursor.pulls` lists what reading again and again comes to. The list ends with the first reading
that takes no character: the end of the text, or a character that starts no token. Reading on from
there gives the same answer for ever. `tokenize` is the list of tokens if none of the readings
fails.
-/

namespace MflFrontend

/-- What one reading comes to. -/
structure Scan where
  /-- The token, or why there is none. -/
  outcome : Except Failure Token
  /-- How many characters were taken for it, not counting trivia. -/
  taken : Nat
  /-- The cursor behind them. -/
  cursor : Cursor

namespace Cursor

/-- The cursor behind the trivia in front. -/
def skipTrivia (c : Cursor) : Cursor := c.pass (triviaLength false c.rest)

/-- The cursor at the end of the line. -/
def skipComment (c : Cursor) : Cursor := c.pass (commentLength c.rest)

/-- The outcome of a lexeme that starts at the cursor. -/
def locate (c : Cursor) : Except ScanFault (TokenKind × Value) → Except Failure Token
  | .ok (kind, value) => .ok ⟨kind, value, c.line, c.column⟩
  | .error (.lexical fault) => .error (.rejected (.lexical fault c.line))
  | .error (.integerTooLong digits) => .error (.integerTooLong digits)

/-- The sentinel at the cursor. -/
def sentinel (c : Cursor) : Token := ⟨.endOfInput, .none, c.line, c.column⟩

/-- Reads the token at the cursor, where no trivia stand in front. -/
def scanLexeme (c : Cursor) : Scan :=
  match c.rest with
  | [] => ⟨.ok c.sentinel, 0, c⟩
  | a :: rest =>
    let lexeme := Lexeme.read a rest
    ⟨c.locate lexeme.outcome, lexeme.length, c.pass lexeme.length⟩

/-- Reads the next token. -/
def scan (c : Cursor) : Scan := c.skipTrivia.scanLexeme

/-- A reading that takes a character leaves fewer to come. -/
theorem length_scanLexeme_lt (c : Cursor) (h : c.scanLexeme.taken ≠ 0) :
    c.scanLexeme.cursor.rest.length < c.rest.length := by
  unfold scanLexeme at h ⊢
  split at h
  · simp at h
  · rename_i a rest hrest
    simp only [rest_pass, List.length_drop] at h ⊢
    have : 0 < c.rest.length := by simp [hrest]
    omega

/-- A reading that takes a character leaves fewer to come, trivia included. -/
theorem length_scan_lt (c : Cursor) (h : c.scan.taken ≠ 0) :
    c.scan.cursor.rest.length < c.rest.length :=
  Nat.lt_of_lt_of_le (length_scanLexeme_lt c.skipTrivia h) (length_rest_pass_le c _)

end Cursor

/-- What asking for the next token comes to. -/
structure Pull where
  /-- The token, or why there is none. -/
  outcome : Except Failure Token
  /-- The line on which the reading stopped. -/
  line : Int
  /-- How many frames of the stack the asking takes, counted from the procedure that asks. -/
  frames : Nat

namespace Pull

/-- The records that a pull leaves. -/
def records (p : Pull) : List LogRecord :=
  match p.outcome with
  | .ok _ => []
  | .error failure => failure.records

/-- The pull of a token that was read before. Taking it is two calls, and looking at it is three. -/
def ofToken (t : Token) : Pull := ⟨.ok t, t.line, 3⟩

end Pull

namespace Cursor

/-- The trivia in front. -/
def trivia (c : Cursor) : List Char := c.rest.take (triviaLength false c.rest)

/-- How many frames of the stack reading the next token takes. That the text has ended is seen in
the fifth; looking at a character takes a sixth, and at one of a comment a seventh. -/
def frames (c : Cursor) : Nat :=
  if c.rest = [] then 5 else if '#' ∈ c.trivia then 7 else 6

/-- What reading the next token comes to. -/
def pull (c : Cursor) : Pull := ⟨c.scan.outcome, c.scan.cursor.line, c.frames⟩

/-- What reading comes to, again and again, up to the answer that repeats for ever. -/
def pulls (c : Cursor) : List Pull :=
  if _h : c.scan.taken = 0 then [c.pull] else c.pull :: pulls c.scan.cursor
termination_by c.rest.length
decreasing_by exact length_scan_lt c _h

end Cursor

/-- The tokens of a list of pulls, or its first failure. -/
def Pull.tokens : List Pull → Except Failure (List Token)
  | [] => .ok []
  | p :: ps =>
    match p.outcome with
    | .error failure => .error failure
    | .ok t =>
      match Pull.tokens ps with
      | .error failure => .error failure
      | .ok ts => .ok (t :: ts)

/-- The tokens of a text, the sentinel included. -/
def tokenize (text : String) : Except Failure (List Token) :=
  Pull.tokens (Cursor.start text).pulls

/-- A cursor and the token that was read last. -/
structure Lexer where
  /-- Where reading goes on. -/
  cursor : Cursor
  /-- The token that was read last. -/
  current? : Option Token := none

namespace Lexer

/-- The lexer at the start of a text. -/
def ofText (text : String) : Lexer := { cursor := .start text }

/-- Reads the next token, which becomes the current one. -/
def next (l : Lexer) : Except Failure Token × Lexer :=
  let scan := l.cursor.scan
  (scan.outcome,
    { cursor := scan.cursor
      current? :=
        match scan.outcome with
        | .ok t => some t
        | .error _ => l.current? })

/-- The token that was read last. -/
def current (l : Lexer) : Except Failure Token :=
  match l.current? with
  | some t => .ok t
  | none => .error .noTokenRead

/-- The line of the current token, or of the cursor if no token was read. -/
def currentLine (l : Lexer) : Int :=
  match l.current? with
  | some t => t.line
  | none => l.cursor.line

/-- The next character. -/
def peek (l : Lexer) : Option Char := l.cursor.rest.head?

/-- Takes the next character. -/
def advance (l : Lexer) : Except StreamFault Char × Lexer :=
  match l.cursor.rest with
  | [] => (.error (.pastEnd l.cursor.offset l.cursor.line), l)
  | c :: _ => (.ok c, { l with cursor := l.cursor.pass 1 })

/-- Skips the trivia in front. -/
def skipTrivia (l : Lexer) : Lexer := { l with cursor := l.cursor.skipTrivia }

/-- Skips to the end of the line. -/
def skipComment (l : Lexer) : Lexer := { l with cursor := l.cursor.skipComment }

/-- Takes the longest fixed spelling of at most two characters, if one stands in front. The current
token stays. -/
def matchSign (l : Lexer) : Option Token × Lexer :=
  match Lexeme.sign? l.cursor.rest with
  | none => (none, l)
  | some (spelling, kind) =>
    (some ⟨kind, .text (String.ofList spelling), l.cursor.line, l.cursor.column⟩,
      { l with cursor := l.cursor.pass spelling.length })

end Lexer

end MflFrontend
