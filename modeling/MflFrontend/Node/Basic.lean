import MflFrontend.Token.Basic

/-!
# Syntax trees

The nodes that a program is made of. Each node carries the line on which it was recognised; the line
is for diagnosis only and takes no part in comparing nodes.

`Node.stray` stands for a node of a variant that is not one of these. Such a node can be part of a
tree, but operations that have to look into it fail with `NodeFault.unknown`.
-/

namespace MflFrontend

/-- A node of a syntax tree. -/
inductive Node where
  /-- A whole program: its statements in order. -/
  | program (line : Int) (statements : List Node)
  /-- A binding in declaration form. Programs that are read use `binary` with the binding sign. -/
  | binding (line : Int) (name : Token) (rhs : Node)
  /-- A sum, a product, a connective or a binding. -/
  | binary (line : Int) (left right : Node) (op : TokenKind)
  /-- A comparison. -/
  | relation (line : Int) (left right : Node) (op : TokenKind)
  /-- A negation. -/
  | unary (line : Int) (operand : Node) (op : TokenKind)
  /-- A literal or an identifier. -/
  | leaf (line : Int) (token : Token)
  /-- A node of an unknown variant. -/
  | stray (line : Int) (variantName : String)

/-- Why a node cannot be built, looked into or written. -/
inductive NodeFault where
  /-- A node of no variant was asked for. -/
  | abstract
  /-- The node is of an unknown variant. -/
  | unknown (variantName : String)
  /-- The node is indented by a number that is no index of a text. -/
  | indentOutOfRange
  /-- An integer in the node has too many digits to be written. -/
  | integerUnwritable
  deriving DecidableEq

/-- The wording of a node fault. -/
def NodeFault.message : NodeFault → String
  | abstract => "SyntaxNode is abstract; build one of its variants"
  | unknown variantName => "Unknown syntax node type: " ++ variantName
  | indentOutOfRange => "cannot fit 'int' into an index-sized integer"
  | integerUnwritable => unwritableIntegerMessage

/-- The variants of nodes. -/
inductive Variant where
  /-- Programs. -/
  | program
  /-- Bindings in declaration form. -/
  | binding
  /-- Binary operations. -/
  | binary
  /-- Comparisons. -/
  | relation
  /-- Negations. -/
  | unary
  /-- Literals and identifiers. -/
  | leaf
  /-- An unknown variant. -/
  | stray (name : String)
  deriving DecidableEq

/-- The name of a variant. -/
def Variant.name : Variant → String
  | program => "ProgNode"
  | binding => "ValNode"
  | binary => "BinOpNode"
  | relation => "RelOpNode"
  | unary => "UnaryOpNode"
  | leaf => "TokenNode"
  | stray name => name

/-- What a node holds besides its line and its children. -/
inductive OwnField where
  /-- Nothing. -/
  | none
  /-- An operator. -/
  | operator (op : TokenKind)
  /-- A token. -/
  | token (t : Token)
  deriving DecidableEq

/-- What comparing nodes looks at in their own fields. -/
inductive OwnKey where
  /-- The key of nothing. -/
  | none
  /-- The key of an operator, itself. -/
  | operator (op : TokenKind)
  /-- The key of a token. -/
  | token (key : TokenKey)
  deriving DecidableEq

/-- The key of an own field. -/
def OwnField.key : OwnField → OwnKey
  | none => .none
  | operator op => .operator op
  | token t => .token t.key

namespace Node

/-- The line on which the node was recognised. -/
def line : Node → Int
  | program line _ => line
  | binding line _ _ => line
  | binary line _ _ _ => line
  | relation line _ _ _ => line
  | unary line _ _ => line
  | leaf line _ => line
  | stray line _ => line

/-- The variant of a node. -/
def variant : Node → Variant
  | program _ _ => .program
  | binding _ _ _ => .binding
  | binary _ _ _ _ => .binary
  | relation _ _ _ _ => .relation
  | unary _ _ _ => .unary
  | leaf _ _ => .leaf
  | stray _ name => .stray name

/-- The children of a node, in source order. -/
def children : Node → List Node
  | program _ statements => statements
  | binding _ _ rhs => [rhs]
  | binary _ left right _ => [left, right]
  | relation _ left right _ => [left, right]
  | unary _ operand _ => [operand]
  | leaf _ _ => []
  | stray _ _ => []

/-- The operator or token of a node. -/
def own : Node → Except NodeFault OwnField
  | program _ _ => .ok .none
  | binding _ name _ => .ok (.token name)
  | binary _ _ _ op => .ok (.operator op)
  | relation _ _ _ op => .ok (.operator op)
  | unary _ _ op => .ok (.operator op)
  | leaf _ token => .ok (.token token)
  | stray _ name => .error (.unknown name)

mutual

/-- The number of nodes in a tree. -/
def size : Node → Nat
  | program _ statements => sizeAll statements + 1
  | binding _ _ rhs => rhs.size + 1
  | binary _ left right _ => left.size + right.size + 1
  | relation _ left right _ => left.size + right.size + 1
  | unary _ operand _ => operand.size + 1
  | leaf _ _ => 1
  | stray _ _ => 1

/-- The number of nodes in several trees. -/
def sizeAll : List Node → Nat
  | [] => 0
  | n :: ns => n.size + sizeAll ns

end

@[simp] theorem sizeAll_nil : sizeAll [] = 0 := by
  simp [sizeAll]

@[simp] theorem sizeAll_cons (n : Node) (ns : List Node) :
    sizeAll (n :: ns) = n.size + sizeAll ns := by
  simp [sizeAll]

@[simp] theorem sizeAll_append (ms ns : List Node) :
    sizeAll (ms ++ ns) = sizeAll ms + sizeAll ns := by
  induction ms with
  | nil => simp
  | cons m ms ih => simp [ih, Nat.add_assoc]

@[simp] theorem sizeAll_reverse (ns : List Node) : sizeAll ns.reverse = sizeAll ns := by
  induction ns with
  | nil => simp
  | cons n ns ih => simp [ih, Nat.add_comm]

/-- A node is one more than its children. -/
theorem size_eq (n : Node) : n.size = sizeAll n.children + 1 := by
  cases n <;> simp [size, children]

end Node

/-- The tree of a program, by its root. -/
structure SyntaxTree where
  /-- The root of the tree. -/
  root : Node

end MflFrontend
