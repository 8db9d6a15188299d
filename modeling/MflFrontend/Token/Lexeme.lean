import MflFrontend.Diagnosis

/-!
# Trivia and lexemes

What stands between tokens, and what a token is read from. Trivia are the four blanks of the
language and comments, a comment being `#` and all that follows it on its line. A lexeme is a word,
a run of digits, digits with a point among them, or one of the signs; each is as long as it can be.

All functions here work on the characters to come and say how many of them they take.
-/

namespace MflFrontend

/-- Whether a character is one of the four blanks of the language. -/
def isTriviaBlank (c : Char) : Bool := c == ' ' || c == '\t' || c == '\r' || c == '\n'

/-- Whether a character starts a word. -/
def isWordStart (c : Char) : Bool := c == '_' || c.isAlpha

/-- Whether a character continues a word. -/
def isWordPart (c : Char) : Bool := isWordStart c || c.isDigit

/-- The number of characters before the end of the line. -/
def commentLength (cs : List Char) : Nat := (cs.takeWhile (· != '\n')).length

/-- The number of characters of trivia in front; `inComment` says whether a comment is open. -/
def triviaLength (inComment : Bool) : List Char → Nat
  | [] => 0
  | c :: cs =>
    if inComment then triviaLength (c != '\n') cs + 1
    else if isTriviaBlank c then triviaLength false cs + 1
    else if c == '#' then triviaLength true cs + 1
    else 0

/-- Why no token comes out of the characters in front. -/
inductive ScanFault where
  /-- They are not a lexeme. -/
  | lexical (fault : LexFault)
  /-- They are more digits than an integer literal may have. -/
  | integerTooLong (digits : Nat)
  deriving DecidableEq

/-- What was read from the characters in front. -/
structure Lexeme where
  /-- How many characters were taken. -/
  length : Nat
  /-- The kind and value of the token, or why there is none. -/
  outcome : Except ScanFault (TokenKind × Value)

namespace Lexeme

/-- The kind and value of a word: the two truth values carry themselves, all others their text. -/
def ofWord (word : List Char) : TokenKind × Value :=
  match TokenKind.ofSpelling? word with
  | some .trueLit => (.trueLit, .bool true)
  | some .falseLit => (.falseLit, .bool false)
  | some kind => (kind, .text (String.ofList word))
  | none => (.ident, .text (String.ofList word))

/-- The integer literal written by a run of digits. -/
def ofDigits (digits : List Char) : Except ScanFault (TokenKind × Value) :=
  if maxIntegerDigits < digits.length then .error (.integerTooLong digits.length)
  else .ok (.intLit, .int (ofDecimalDigits digits))

/-- The real literal with the given digits before and behind the point. -/
def ofReal (whole fraction : List Char) : TokenKind × Value :=
  (.realLit, .real (Double.nearest (ofDecimalDigits (whole ++ fraction)) (pow10 fraction.length)))

/-- Reads a number whose digits before any point are `whole`. A point has to be followed by a digit,
and the digits behind it by no second point. -/
def readNumber (whole rest : List Char) : Lexeme :=
  match rest with
  | '.' :: rest =>
    let fraction := rest.takeWhile Char.isDigit
    let length := whole.length + 1 + fraction.length
    if fraction.isEmpty then ⟨length, .error (.lexical (.malformedReal (whole ++ ['.'])))⟩
    else if (rest.drop fraction.length).head? == some '.' then
      ⟨length, .error (.lexical (.invalidReal (whole ++ '.' :: fraction)))⟩
    else ⟨length, .ok (ofReal whole fraction)⟩
  | _ => ⟨whole.length, ofDigits whole⟩

/-- The fixed spelling that the next `n` characters are. -/
def spelling? (n : Nat) (cs : List Char) : Option (List Char × TokenKind) :=
  let front := cs.take n
  if front.length < n then none else (TokenKind.ofSpelling? front).map (front, ·)

/-- The longest fixed spelling of at most two characters that stands in front. -/
def sign? (cs : List Char) : Option (List Char × TokenKind) := spelling? 2 cs <|> spelling? 1 cs

/-- Reads the lexeme that starts with `c`. A character that starts none is not taken. -/
def read (c : Char) (rest : List Char) : Lexeme :=
  if isWordStart c then
    let word := c :: rest.takeWhile isWordPart
    ⟨word.length, .ok (ofWord word)⟩
  else if c.isDigit then
    let whole := c :: rest.takeWhile Char.isDigit
    readNumber whole ((c :: rest).drop whole.length)
  else
    match sign? (c :: rest) with
    | some (spelling, kind) => ⟨spelling.length, .ok (kind, .text (String.ofList spelling))⟩
    | none => ⟨0, .error (.lexical (.unexpectedCharacter c))⟩

end Lexeme

end MflFrontend
