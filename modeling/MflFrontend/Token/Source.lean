import MflFrontend.Token.Lexer

/-!
# Token sources

What a parser reads from: a sequence of pulls that ends by repeating its last one for ever. A source
comes from a text, or from a list of tokens that is closed by a sentinel.

The source keeps the token that was read last. A pull that fails leaves it as it was.
-/

namespace MflFrontend

/-- A sequence of pulls and the place that has been reached in it. -/
structure TokenSource where
  /-- The pulls that are still to come. -/
  ahead : List Pull
  /-- The pull that repeats when none is to come. -/
  final : Pull
  /-- The token that was read last. -/
  current? : Option Token := none
  /-- The line to report as long as no token was read. -/
  idleLine : Int := 1

/-- The list with a sentinel behind it, unless it ends with one. The sentinel is on the line of the
last token, and on line one if there is none. -/
def closeTokens (tokens : List Token) : List Token :=
  match tokens.getLast? with
  | none => [{ kind := .endOfInput, line := 1 }]
  | some last =>
    if last.kind = .endOfInput then tokens
    else tokens ++ [{ kind := .endOfInput, line := last.line }]

namespace TokenSource

/-- The source of a list of pulls, of which the last one repeats. -/
def ofPulls (pulls : List Pull) (idleLine : Int) : TokenSource where
  ahead := pulls
  final := pulls.getLastD (.ofToken { kind := .endOfInput, line := 1 })
  idleLine := idleLine

/-- The source of the tokens of a text. -/
def ofText (text : String) : TokenSource := ofPulls (Cursor.start text).pulls 1

/-- The source of a list of tokens, closed by a sentinel. -/
def ofTokens (tokens : List Token) : TokenSource :=
  let closed := closeTokens tokens
  ofPulls (closed.map .ofToken) ((closed.head?.map Token.line).getD 1)

/-- The next pull. -/
def pull (s : TokenSource) : Pull := s.ahead.headD s.final

/-- Asks for the next token, which becomes the current one. -/
def next (s : TokenSource) : Except Failure Token × TokenSource :=
  (s.pull.outcome,
    { s with
      ahead := s.ahead.tail
      idleLine := s.pull.line
      current? :=
        match s.pull.outcome with
        | .ok t => some t
        | .error _ => s.current? })

/-- The token that was read last. -/
def current (s : TokenSource) : Except Failure Token :=
  match s.current? with
  | some t => .ok t
  | none => .error .noTokenRead

/-- The line of the current token. -/
def currentLine (s : TokenSource) : Int :=
  match s.current? with
  | some t => t.line
  | none => s.idleLine

/-- The index of the current token among `size` pulls; before the first it is `-1`. -/
def position (s : TokenSource) (size : Nat) : Int := size - s.ahead.length - 1

end TokenSource

end MflFrontend
