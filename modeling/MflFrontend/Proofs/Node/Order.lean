import MflFrontend.Proofs.Node.Descendants
import Mathlib.Data.List.Perm.Basic

/-!
# The nodes of a tree as they are written

An operator is written between its operands, a negation before its operand, and a program and a
binding before all that belongs to them. This order has each node of the tree once, as the order of
`nodes` has, in which every node comes before those below it.
-/

namespace MflFrontend

namespace Node

mutual

/-- The nodes of a tree in the order in which they are written. -/
def inOrder : Node → List Node
  | program line statements => program line statements :: inOrderAll statements
  | binding line name rhs => binding line name rhs :: rhs.inOrder
  | binary line left right op =>
    if op = .assign then binary line left right op :: (left.inOrder ++ right.inOrder)
    else left.inOrder ++ binary line left right op :: right.inOrder
  | relation line left right op => left.inOrder ++ relation line left right op :: right.inOrder
  | unary line operand op => unary line operand op :: operand.inOrder
  | leaf line token => [leaf line token]
  | stray line name => [stray line name]

/-- The nodes of several trees. -/
def inOrderAll : List Node → List Node
  | [] => []
  | n :: ns => n.inOrder ++ inOrderAll ns

end

theorem inOrderAll_eq_flatMap (ns : List Node) : inOrderAll ns = ns.flatMap inOrder := by
  induction ns with
  | nil => rw [inOrderAll, List.flatMap_nil]
  | cons n ns ih => rw [inOrderAll, List.flatMap_cons, ih]

/-- A node may stand anywhere among what is below it. -/
theorem inOrder_perm_children (n : Node) : n.inOrder.Perm (n :: n.children.flatMap inOrder) := by
  cases n with
  | program line statements =>
    rw [inOrder, inOrderAll_eq_flatMap]
    exact .refl _
  | binary line left right op =>
    rw [inOrder]
    split <;> simp [children]
  | _ => simp [inOrder, children]

/-- Every node of the tree is written once. -/
theorem inOrder_perm (n : Node) : n.inOrder.Perm n.nodes := by
  induction n using inductionOnChildren with
  | step n ih =>
    rw [nodes_eq]
    exact n.inOrder_perm_children.trans ((List.Perm.flatMap_left _ ih).cons n)

theorem mem_inOrder_iff {m n : Node} : m ∈ n.inOrder ↔ m.Occurs n := by
  rw [n.inOrder_perm.mem_iff, mem_nodes_iff]

/-- The token of a leaf. -/
def leafToken? : Node → Option Token
  | leaf _ token => some token
  | _ => none

/-- The tokens of the leaves of a tree, from left to right. -/
def leafTokens (n : Node) : List Token := n.inOrder.filterMap leafToken?

end Node

end MflFrontend
