import MflFrontend.Token.Basic

/-!
# Faults, failures and log records

What can go wrong while a text becomes a tree, as causes; the wording of each cause is one function.

A `ParseError` is the answer to a text that is not a program. The other failures are not about the
program: an integer with more digits than the library reads or writes, and asking for the current
token before one was read. A `ParseError` goes with a `LogRecord`, and so does each finished parse.
-/

namespace MflFrontend

/-- Why no token can be read at a place. -/
inductive LexFault where
  /-- Digits and a point, with no digit behind the point. -/
  | malformedReal (literal : List Char)
  /-- A real literal with a second point behind it. -/
  | invalidReal (literal : List Char)
  /-- A character that starts no token. -/
  | unexpectedCharacter (c : Char)
  deriving DecidableEq

/-- The wording of a lexical fault. -/
def LexFault.message : LexFault → String
  | malformedReal literal => "Malformed real literal '" ++ String.ofList literal ++ "'"
  | invalidReal literal => "Invalid real format '" ++ String.ofList literal ++ ".'"
  | unexpectedCharacter c => "Unexpected character " ++ String.ofList (quoted [c])

/-- What the grammar asks for at a place. -/
inductive Expectation where
  /-- A literal, an identifier or a parenthesis. -/
  | value
  /-- The name in a binding. -/
  | boundName
  /-- The sign in a binding. -/
  | assignSign
  /-- The end of a statement. -/
  | semicolon
  /-- The end of a parenthesis. -/
  | closeParen
  /-- The end of the program. -/
  | endOfInput
  /-- Anything else, in words. -/
  | phrase (text : String)
  deriving DecidableEq

/-- The wording of an expectation. -/
def Expectation.describe : Expectation → String
  | value => "a value or '('"
  | boundName => "identifier after 'val'"
  | assignSign => "':='"
  | semicolon => "';'"
  | closeParen => "')'"
  | endOfInput => "end of input"
  | phrase text => text

/-- What is wrong with a token where it stands. -/
inductive Complaint where
  /-- Something else has to stand here. -/
  | expected (what : Expectation)
  /-- The parenthesis that opens here is one too many inside another. -/
  | nestedTooDeeply
  /-- Anything else, in words. -/
  | remark (text : String)
  deriving DecidableEq

/-- The wording of a complaint, without the token that it is about. -/
def Complaint.describe : Complaint → String
  | expected what => "Expected " ++ what.describe
  | nestedTooDeeply => "Expression nested too deeply"
  | remark text => text

/-- Whether a complaint can name the token that was found. -/
def Token.IsDescribable (t : Token) : Prop := t.kind = .endOfInput ∨ t.IsWritable

instance (t : Token) : Decidable t.IsDescribable :=
  inferInstanceAs (Decidable (t.kind = .endOfInput ∨ t.IsWritable))

/-- How a complaint names the token that was found, if it can. -/
def Token.describeFound (t : Token) : String :=
  if t.kind = .endOfInput then "end of input" else t.display

/-- Why a text is not a program. -/
inductive ParseError where
  /-- The text has a lexical fault on the line. -/
  | lexical (fault : LexFault) (line : Int)
  /-- The token does not fit where it stands, on the line. -/
  | unexpected (complaint : Complaint) (found : Token) (line : Int)
  deriving DecidableEq

/-- A log record. -/
inductive LogRecord where
  /-- A lexical fault was met on the line. -/
  | lexicalError (line : Int) (message : String)
  /-- A token was rejected on the line. -/
  | parseError (line : Int) (message : String)
  /-- A program of so many statements was read. -/
  | parsed (statements : Nat)
  deriving DecidableEq

namespace ParseError

/-- The message, without the line. -/
def message : ParseError → String
  | lexical fault _ => fault.message
  | unexpected complaint found _ => complaint.describe ++ ", found " ++ found.describeFound

/-- The line that the error is about. -/
def line : ParseError → Int
  | lexical _ line => line
  | unexpected _ _ line => line

/-- The token that does not fit; a lexical fault has none. -/
def token? : ParseError → Option Token
  | lexical _ _ => none
  | unexpected _ found _ => some found

/-- The record that goes with the error. -/
def record : ParseError → LogRecord
  | e@(lexical _ line) => .lexicalError line e.message
  | e@(unexpected _ _ line) => .parseError line e.message

end ParseError

/-- An error as it is reported: a message about a line, and the token concerned if there is one. -/
structure ErrorReport where
  /-- The message, without the line. -/
  message : String
  /-- The line that it is about. -/
  line : Int
  /-- The token concerned. -/
  token? : Option Token
  deriving DecidableEq

/-- The report as one line of text, if its line can be written. -/
def ErrorReport.display (r : ErrorReport) : String :=
  "Line " ++ integerText r.line ++ ": " ++ r.message

/-- What an error reports. -/
def ParseError.report (e : ParseError) : ErrorReport := ⟨e.message, e.line, e.token?⟩

/-- Why no token or tree comes back. -/
inductive Failure where
  /-- The text is not a program. -/
  | rejected (e : ParseError)
  /-- An integer literal has too many digits to be converted. -/
  | integerTooLong (digits : Nat)
  /-- An integer that belongs into a message has too many digits to be written. -/
  | integerUnwritable
  /-- The current token was asked for before the first was read. -/
  | noTokenRead
  deriving DecidableEq

namespace Failure

/-- What a failure comes to when its error has to be written. The text of an error names its line, so
an error on a line that cannot be written does not come about. -/
def written : Failure → Failure
  | rejected e => if IsWritableInteger e.line then rejected e else integerUnwritable
  | failure => failure

/-- The wording of a failure. -/
def message : Failure → String
  | rejected e => e.report.display
  | integerTooLong digits =>
    "Exceeds the limit (" ++ integerText maxIntegerDigits ++
      " digits) for integer string conversion: value has " ++ integerText digits ++
      " digits; use sys.set_int_max_str_digits() to increase the limit"
  | integerUnwritable => unwritableIntegerMessage
  | noTokenRead => "No token has been read yet; call next_token() first"

/-- The records that go with a failure: one for a program that is rejected. -/
def records : Failure → List LogRecord
  | rejected e => [e.record]
  | integerTooLong _ => []
  | integerUnwritable => []
  | noTokenRead => []

end Failure

/-- How serious a log record is, and from where on records are kept. -/
inductive Severity where
  /-- No level was chosen. -/
  | unset
  /-- Progress notes. -/
  | debug
  /-- Things that may need attention. -/
  | warning
  /-- Failures. -/
  | error
  /-- Nothing that this library logs is as serious. -/
  | critical
  deriving DecidableEq

namespace Severity

/-- The name of a level. -/
def name : Severity → String
  | unset => "NOTSET"
  | debug => "DEBUG"
  | warning => "WARNING"
  | error => "ERROR"
  | critical => "CRITICAL"

/-- The place of a level in their order. -/
def rank : Severity → Nat
  | unset => 0
  | debug => 1
  | warning => 2
  | error => 3
  | critical => 4

end Severity

namespace LogRecord

/-- The level of a record. -/
def severity : LogRecord → Severity
  | lexicalError _ _ => .error
  | parseError _ _ => .error
  | parsed _ => .debug

/-- The channel that a record is written to. -/
def channel : LogRecord → String
  | lexicalError _ _ => "mfl.mfl_lexer"
  | parseError _ _ => "mfl.mfl_parser"
  | parsed _ => "mfl.mfl_parser"

/-- Whether a record can be written. The statements of a program are counted, so their number has few
digits; a line may be any integer. Nothing is written of a record whose wording fails, and whoever left
the record does not hear of it. -/
def IsWritable : LogRecord → Prop
  | lexicalError line _ => IsWritableInteger line
  | parseError line _ => IsWritableInteger line
  | parsed _ => True

instance (r : LogRecord) : Decidable r.IsWritable :=
  match r with
  | lexicalError line _ => inferInstanceAs (Decidable (IsWritableInteger line))
  | parseError line _ => inferInstanceAs (Decidable (IsWritableInteger line))
  | parsed _ => .isTrue trivial

/-- The wording of a record, if it can be written. -/
def message : LogRecord → String
  | lexicalError line text => "Lexical error on line " ++ integerText line ++ ": " ++ text
  | parseError line text => "Parse error on line " ++ integerText line ++ ": " ++ text
  | parsed n => "Parsed " ++ integerText n ++ " statement(s)"

end LogRecord

end MflFrontend
