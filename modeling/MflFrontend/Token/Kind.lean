/-!
# Token kinds

The closed vocabulary of MFL: twenty-four kinds of token, the spelling of the twenty that are always
written the same way, and the groups of kinds that one tier of the grammar accepts.

A spelling is a list of characters, because it is looked up while characters are being read.
-/

namespace MflFrontend

/-- What a token is. -/
inductive TokenKind where
  /-- An integer literal. -/
  | intLit
  /-- A real literal. -/
  | realLit
  /-- The word `true`. -/
  | trueLit
  /-- The word `false`. -/
  | falseLit
  /-- An identifier. -/
  | ident
  /-- The word `val`, which opens a binding. -/
  | valWord
  /-- The word `not`. -/
  | notWord
  /-- The word `and`. -/
  | andWord
  /-- The word `or`. -/
  | orWord
  /-- The binding sign `:=`. -/
  | assign
  /-- The sign `+`. -/
  | plus
  /-- The sign `-`. -/
  | minus
  /-- The sign `*`. -/
  | times
  /-- The sign `/`. -/
  | divide
  /-- The sign `<`. -/
  | less
  /-- The sign `<=`. -/
  | lessEq
  /-- The sign `>`. -/
  | greater
  /-- The sign `>=`. -/
  | greaterEq
  /-- The sign `=`. -/
  | equal
  /-- The sign `!=`. -/
  | notEqual
  /-- The semicolon that closes a statement. -/
  | semicolon
  /-- The sign `(`. -/
  | openParen
  /-- The sign `)`. -/
  | closeParen
  /-- The sentinel behind the last token. -/
  | endOfInput
  deriving DecidableEq

namespace TokenKind

/-- The name under which a kind is shown. -/
def name : TokenKind → String
  | intLit => "INT"
  | realLit => "REAL"
  | trueLit => "TRUE"
  | falseLit => "FALSE"
  | ident => "ID"
  | valWord => "VAL"
  | notWord => "NOT"
  | andWord => "AND"
  | orWord => "OR"
  | assign => "ASSIGN"
  | plus => "ADD"
  | minus => "SUB"
  | times => "MULT"
  | divide => "DIV"
  | less => "LT"
  | lessEq => "LTE"
  | greater => "GT"
  | greaterEq => "GTE"
  | equal => "EQ"
  | notEqual => "NEQ"
  | semicolon => "SEMI"
  | openParen => "LPAREN"
  | closeParen => "RPAREN"
  | endOfInput => "EOF"

/-- All kinds, literals first and the sentinel last. -/
def all : List TokenKind :=
  [intLit, realLit, trueLit, falseLit, ident, valWord, notWord, andWord, orWord, assign, plus,
    minus, times, divide, less, lessEq, greater, greaterEq, equal, notEqual, semicolon, openParen,
    closeParen, endOfInput]

/-- The kind shown under a name. -/
def ofName? (s : String) : Option TokenKind :=
  all.find? fun k => k.name == s

theorem ofName?_name (k : TokenKind) : ofName? k.name = some k := by
  cases k <;> rfl

/-- No two kinds are shown under one name. -/
theorem name_inj {k l : TokenKind} : k.name = l.name ↔ k = l := by
  refine ⟨fun h => ?_, congrArg name⟩
  have hk := ofName?_name k
  rw [h, ofName?_name] at hk
  exact (Option.some.inj hk).symm

/-- The fixed spellings, words first. Words are case-sensitive. -/
def spellings : List (List Char × TokenKind) :=
  [(['v', 'a', 'l'], valWord),
    (['n', 'o', 't'], notWord),
    (['a', 'n', 'd'], andWord),
    (['o', 'r'], orWord),
    (['t', 'r', 'u', 'e'], trueLit),
    (['f', 'a', 'l', 's', 'e'], falseLit),
    ([':', '='], assign),
    (['+'], plus),
    (['-'], minus),
    (['*'], times),
    (['/'], divide),
    (['<'], less),
    (['<', '='], lessEq),
    (['>'], greater),
    (['>', '='], greaterEq),
    (['='], equal),
    (['!', '='], notEqual),
    ([';'], semicolon),
    (['('], openParen),
    ([')'], closeParen)]

/-- The kind that is always written as `cs`, if there is one. -/
def ofSpelling? (cs : List Char) : Option TokenKind :=
  (spellings.find? fun entry => entry.1 == cs).map Prod.snd

/-- The spellings that are words, in alphabetical order. -/
def words : List String :=
  ((spellings.map Prod.fst).filter fun cs => cs.all Char.isAlpha).map String.ofList
    |>.mergeSort fun a b => decide (a ≤ b)

/-- The kinds whose token is a whole expression. -/
def literals : List TokenKind := [trueLit, falseLit, intLit, realLit, ident]

/-- The connectives, which share the lowest tier. -/
def logical : List TokenKind := [andWord, orWord]

/-- The comparison signs, of which an expression tier takes at most one. -/
def relational : List TokenKind := [less, lessEq, greater, greaterEq, equal, notEqual]

/-- The signs of a sum. -/
def additive : List TokenKind := [plus, minus]

/-- The signs of a product. -/
def multiplicative : List TokenKind := [times, divide]

end TokenKind

end MflFrontend
