import MflFrontend.Grammar.Parse
import MflFrontend.Node.Basic

/-!
# Reading programs

The tiers of the grammar, from the loosest to the tightest:

    program    ::= statement ";" { statement ";" }
    statement  ::= "val" identifier ":=" expression | expression
    expression ::= comparison { ("and" | "or") comparison }
    comparison ::= sum [ ("<" | "<=" | ">" | ">=" | "=" | "!=") sum ]
    sum        ::= product { ("+" | "-") product }
    product    ::= negation { ("*" | "/") negation }
    negation   ::= "not" factor | factor
    factor     ::= literal | identifier | "(" expression ")"

Operators of one tier group to the left, comparisons do not group at all, and a parenthesis leaves
no node. A binding is a binary node with the binding sign. Reading ends at the first token that does
not fit, and never looks behind it.

Each tier is a procedure of its own, and each call takes a frame of the stack. A parenthesis is five
calls inside another, and six on the right of a comparison. `Parse.factor` is a recursion on the
room that a factor has; the room of the other procedures is given by the room `d` of the factors on
the right of their comparisons. All other factors have room `d + 1`.

What a factor needs is more than what its callers need for the tokens that they take: there a check
would never fail first.
-/

namespace MflFrontend

namespace Parse

/-- Reads further operands as long as an operator of the tier stands before them. The node built so
far is the left operand of the next. The list of pulls only bounds the number of rounds. -/
def operands (ops : List TokenKind) (operand : Parse Node) : List Pull → Node → Parse Node
  | [], left => return left
  | _ :: rounds, left => do
    if ← currentIs ops then
      let op ← current
      skip
      let right ← operand
      operands ops operand rounds (.binary op.line left right op.kind)
    else return left

/-- A tier of operators that group to the left. -/
def tier (ops : List TokenKind) (operand : Parse Node) : Parse Node := do
  let first ← operand
  operands ops operand (← ahead) first

/-- The tier of negations, over a reader of factors that have so much room. -/
def negationOf (room : Nat) (factor : Parse Node) : Parse Node := do
  if ← currentIs [.notWord] then
    let line ← currentLine
    skipWithin (room + 1)
    return .unary line (← factor) .notWord
  else factor

/-- The tier of products, over a reader of factors that have so much room. -/
def productOf (room : Nat) (factor : Parse Node) : Parse Node :=
  tier TokenKind.multiplicative (negationOf room factor)

/-- The tier of sums, over a reader of factors that have so much room. -/
def sumOf (room : Nat) (factor : Parse Node) : Parse Node :=
  tier TokenKind.additive (productOf room factor)

/-- The rest of a comparison whose left side was read. At most one sign is taken; a second one is
left to whoever reads on. -/
def comparisonFrom (room : Nat) (factor : Parse Node) (left : Node) : Parse Node := do
  if ← currentIs TokenKind.relational then
    let op ← current
    skip
    return .relation op.line left (← sumOf room factor) op.kind
  else return left

/-- The tier of comparisons, over a reader of the factors on the left and one of those on the right,
which have so much room. -/
def comparisonOf (room : Nat) (outer inner : Parse Node) : Parse Node := do
  comparisonFrom room inner (← sumOf (room + 1) outer)

/-- The loosest tier, over the readers of factors that comparisons have. -/
def expressionOf (room : Nat) (outer inner : Parse Node) : Parse Node :=
  tier TokenKind.logical (comparisonOf room outer inner)

/-- A literal, an identifier, or a parenthesis whose inside is read by `expression`. -/
def factorWith (room : Nat) (expression : Parse Node) : Parse Node := do
  let line ← currentLine
  if ← currentIs TokenKind.literals then
    let t ← current
    skipWithin room
    return .leaf line t
  else if ← currentIs [.openParen] then
    skipWithin (room - 1)
    let n ← expression
    let _ ← expect .closeParen .closeParen
    return n
  else reject (.expected .value)

/-- A factor that has so much room. -/
def factor : Nat → Parse Node
  | room + 6 => factorWith (room + 6) (expressionOf room (factor (room + 1)) (factor room))
  | room => factorWith room (reject .nestedTooDeeply)

/-- A negation or a factor. -/
def negation (d : Nat) : Parse Node := negationOf (d + 1) (factor (d + 1))

/-- A product. -/
def product (d : Nat) : Parse Node := productOf (d + 1) (factor (d + 1))

/-- A sum. -/
def sum (d : Nat) : Parse Node := sumOf (d + 1) (factor (d + 1))

/-- The rest of a comparison whose left side is given. -/
def comparison (d : Nat) (left : Node) : Parse Node := comparisonFrom d (factor d) left

/-- An expression. -/
def expression (d : Nat) : Parse Node := expressionOf d (factor (d + 1)) (factor d)

/-- A binding or an expression. -/
def statement (d : Nat) : Parse Node := do
  if ← currentIs [.valWord] then
    let line ← currentLine
    skip
    let name ← expect .ident .boundName
    let _ ← expect .assign .assignSign
    let rhs ← expression d
    return .binary line (.leaf name.line name) rhs .assign
  else expression d

/-- A statement and the semicolon behind it. -/
def closedStatement (d : Nat) : Parse Node := do
  let n ← statement d
  let _ ← expect .semicolon .semicolon
  return n

/-- Closed statements up to the end of the input. The list of pulls only bounds the number of
rounds. -/
def statements (d : Nat) : List Pull → Parse (List Node)
  | [] => return []
  | _ :: rounds => do
    if ← currentIs [.endOfInput] then return []
    else
      let n ← closedStatement d
      return n :: (← statements d rounds)

/-- The statements of a program. -/
def programStatements (d : Nat) : Parse (List Node) := do
  let first ← closedStatement d
  return first :: (← statements d (← ahead))

/-- A program: at least one statement. -/
def program (d : Nat) : Parse Node := do
  let line ← currentLine
  return .program line (← programStatements d)

/-- A program that is the whole input. -/
def wholeProgram (d : Nat) : Parse SyntaxTree := do
  skip
  let line ← currentLine
  let statements ← programStatements d
  let _ ← expect .endOfInput .endOfInput
  record (.parsed statements.length)
  return ⟨.program line statements⟩

end Parse

/-- What a parse comes to, and the records that it leaves. -/
structure ParseReport where
  /-- The tree, or why there is none. -/
  outcome : Except Failure SyntaxTree
  /-- The records. -/
  log : List LogRecord

/-- The parentheses that may open inside one another however a program is laid out. -/
def guaranteedNesting : Nat := 100

/-- The room that a parse has at least: six frames for each parenthesis, and twenty for what else is
called. -/
def guaranteedRoom : Nat := 6 * guaranteedNesting + 20

/-- The room of the factors on the right of comparisons in a parse that has so much room itself. -/
def factorRoom (room : Nat) : Nat := room - 8

/-- Reads a whole source as a program, in the given room. -/
def parseSource (room : Nat) (source : TokenSource) : ParseReport :=
  match (Parse.wholeProgram (factorRoom room)).run { source := source } with
  | .ok tree s => ⟨.ok tree, s.log⟩
  | .error failure s => ⟨.error failure, s.log⟩

/-- Reads a text as a program. -/
def parseText (room : Nat) (text : String) : ParseReport := parseSource room (.ofText text)

/-- What a report comes to when its error and its records have to be written. The handlers of the log
give up the record of an error on a line that cannot be written, and the error does not come about
either, as its text names the line. -/
def ParseReport.written (r : ParseReport) : ParseReport :=
  ⟨r.outcome.mapError Failure.written, r.log.filter (·.IsWritable)⟩

/-- Reads a list of tokens as a program. The lines of the tokens may be any integers, those of a text
always can be written. -/
def parseTokens (room : Nat) (tokens : List Token) : ParseReport :=
  (parseSource room (.ofTokens tokens)).written

end MflFrontend
