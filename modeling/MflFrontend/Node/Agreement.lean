import MflFrontend.Node.Basic

/-!
# Comparing trees

Two trees *agree* if corresponding nodes are of one variant and have equal own fields and as many
children; lines of nodes do not matter. The pairs to compare are kept in a list, from which the last
child comes first, and the first difference ends the comparison. So a node of an unknown variant
makes the comparison fail only if no difference was found before it, and only if its partner is of
the same variant.

For sets of trees, a tree has a list of entries, one for each node.
-/

namespace MflFrontend

namespace Node

/-- The key of a node's own fields. -/
def ownKey (n : Node) : Except NodeFault OwnKey := n.own.map OwnField.key

/-- The number of nodes in the left trees of pairs. -/
def leftSize (pairs : List (Node × Node)) : Nat := sizeAll (pairs.map Prod.fst)

theorem sizeAll_zip_le (ms ns : List Node) :
    sizeAll ((ms.zip ns).map Prod.fst) ≤ sizeAll ms := by
  induction ms generalizing ns with
  | nil => simp
  | cons m ms ih =>
    cases ns with
    | nil => simp
    | cons n ns =>
      simp only [List.zip_cons_cons, List.map_cons, sizeAll_cons]
      exact Nat.add_le_add_left (ih ns) _

/-- Whether all pairs agree. -/
def agreePairs : List (Node × Node) → Except NodeFault Bool
  | [] => .ok true
  | (a, b) :: pending =>
    if a.variant ≠ b.variant then .ok false
    else
      match a.ownKey, b.ownKey with
      | .error fault, _ => .error fault
      | .ok _, .error fault => .error fault
      | .ok left, .ok right =>
        if left ≠ right ∨ a.children.length ≠ b.children.length then .ok false
        else agreePairs ((a.children.zip b.children).reverse ++ pending)
termination_by pairs => leftSize pairs
decreasing_by
  simp only [leftSize, List.map_append, List.map_reverse, sizeAll_append, sizeAll_reverse,
    List.map_cons, sizeAll_cons, size_eq a]
  have := sizeAll_zip_le a.children b.children
  omega

/-- Whether two trees agree. -/
def agrees (a b : Node) : Except NodeFault Bool := agreePairs [(a, b)]

/-- What a set of trees looks at in a node. -/
structure HashEntry where
  /-- The variant of the node. -/
  variant : Variant
  /-- Its own fields. -/
  own : OwnKey
  /-- The number of its children. -/
  arity : Nat
  deriving DecidableEq

/-- The entries of all trees in the list, the last child of a node first. -/
def entriesOf : List Node → Except NodeFault (List HashEntry)
  | [] => .ok []
  | n :: pending =>
    match n.ownKey with
    | .error fault => .error fault
    | .ok key =>
      (entriesOf (n.children.reverse ++ pending)).map (⟨n.variant, key, n.children.length⟩ :: ·)
termination_by nodes => sizeAll nodes
decreasing_by
  simp only [sizeAll_append, sizeAll_reverse, sizeAll_cons, size_eq n]
  omega

/-- The entries of a tree. -/
def hashEntries (n : Node) : Except NodeFault (List HashEntry) := entriesOf [n]

/-- How many different trees a set of the two has. -/
def distinct (a b : Node) : Except NodeFault Nat := do
  let left ← a.hashEntries
  let right ← b.hashEntries
  if left ≠ right then return 2
  return if ← a.agrees b then 1 else 2

end Node

/-- Whether the roots of two trees agree. -/
def SyntaxTree.agrees (a b : SyntaxTree) : Except NodeFault Bool := a.root.agrees b.root

/-- Anything that can stand on a side of a comparison. -/
inductive Comparand where
  /-- A value. -/
  | value (v : Value)
  /-- A node. -/
  | node (n : Node)
  /-- A whole tree. -/
  | tree (t : SyntaxTree)

/-- Whether the two sides agree. Sides of different sorts never do, and are not looked into. -/
def Comparand.agrees : Comparand → Comparand → Except NodeFault Bool
  | value a, value b => .ok (a.agrees b)
  | node a, node b => a.agrees b
  | tree a, tree b => a.agrees b
  | _, _ => .ok false

end MflFrontend
