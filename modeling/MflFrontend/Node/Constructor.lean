import MflFrontend.Node.Basic

/-!
# The constructor text of a tree

A tree written as the expression that builds it, each field by name, the line first. The statements
of a program are a list in parentheses, in which a single statement has a comma behind it. A tree
with an integer that cannot be written has no such text.
-/

namespace MflFrontend

/-- An operator as it stands in a constructor text. -/
def TokenKind.constructorText (k : TokenKind) : String :=
  "<TokenType." ++ k.name ++ ": '" ++ k.name ++ "'>"

/-- An integer in a constructor text. -/
def integerField (n : Int) : Except NodeFault String :=
  if IsWritableInteger n then .ok (integerText n) else .error .integerUnwritable

/-- A token in a constructor text. -/
def tokenField (t : Token) : Except NodeFault String :=
  if t.IsWritable then .ok t.display else .error .integerUnwritable

namespace Node

mutual

/-- The constructor text of a tree. -/
def constructorText : Node → Except NodeFault String
  | program line statements => do
    return "ProgNode(line=" ++ (← integerField line) ++ ", statements=(" ++
      (← statementsText statements) ++ "))"
  | binding line name rhs => do
    return "ValNode(line=" ++ (← integerField line) ++ ", name=" ++ (← tokenField name) ++
      ", rhs=" ++ (← rhs.constructorText) ++ ")"
  | binary line left right op => do
    return "BinOpNode(line=" ++ (← integerField line) ++ ", left=" ++ (← left.constructorText) ++
      ", right=" ++ (← right.constructorText) ++ ", op=" ++ op.constructorText ++ ")"
  | relation line left right op => do
    return "RelOpNode(line=" ++ (← integerField line) ++ ", left=" ++ (← left.constructorText) ++
      ", right=" ++ (← right.constructorText) ++ ", op=" ++ op.constructorText ++ ")"
  | unary line operand op => do
    return "UnaryOpNode(line=" ++ (← integerField line) ++ ", operand=" ++
      (← operand.constructorText) ++ ", op=" ++ op.constructorText ++ ")"
  | leaf line token => do
    return "TokenNode(line=" ++ (← integerField line) ++ ", token=" ++ (← tokenField token) ++ ")"
  | stray line name => do
    return name ++ "(line=" ++ (← integerField line) ++ ")"

/-- The statements of a program between the parentheses. -/
def statementsText : List Node → Except NodeFault String
  | [] => .ok ""
  | n :: ns => do
    return (← n.constructorText) ++ "," ++ (← laterText ns)

/-- The statements behind the first one. -/
def laterText : List Node → Except NodeFault String
  | [] => .ok ""
  | [n] => do
    return " " ++ (← n.constructorText)
  | n :: ns => do
    return " " ++ (← n.constructorText) ++ "," ++ (← laterText ns)

end

end Node

/-- The constructor text of a tree as a whole. -/
def SyntaxTree.constructorText (t : SyntaxTree) : Except NodeFault String :=
  t.root.constructorText.map fun text => "SyntaxTree(" ++ text ++ ")"

end MflFrontend
