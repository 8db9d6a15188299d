import MflFrontend.Proofs.Node.Descendants
import MflFrontend.Proofs.Node.Layout

/-!
# The layout of a tree by recursion

The lines of a tree are written off a list of tasks, in which nodes and finished lines are mixed.
Said by recursion, a leaf is one line and any other node is a block: its opening line, the lines of
its children two places further in, and a closing parenthesis. The main statement is that the two
are the same for every tree in which each node opens, at any indentation that is an index. Strays
do not open, nor do nodes with an integer that cannot be written, and the first of these in source
order is what a layout fails by.

The induction is on trees, for all indentations at once; a row of trees is laid out one after the
other, so nothing has to be said of the tasks that are still pending.
-/

namespace MflFrontend

namespace Node

/-! ## Layout by recursion -/

/-- As many blanks as an integer says, and none below zero. -/
def blanks (k : Int) : String := String.ofList (List.replicate (max 0 k).toNat ' ')

theorem padding_eq_blanks (k : Int) : padding k = blanks k := by
  have hblanks : k.toNat = (max 0 k).toNat := by omega
  unfold padding blanks
  rw [hblanks]

/-- Lines between an opening line and a closing parenthesis. -/
def block (k : Int) (head : String) (inner : List String) : List String :=
  (blanks k ++ head) :: (inner ++ [blanks k ++ ")"])

mutual

/-- The lines of a tree at an indentation. A stray has none. -/
def layout (k : Int) : Node → List String
  | program _ statements => block k "Prog(" (layoutAll (k + 2) statements)
  | binding _ name rhs => block k ("Val[" ++ name.value.displayBare ++ "](") (rhs.layout (k + 2))
  | binary _ left right op =>
    block k ("BinOp[" ++ op.name ++ "](") (left.layout (k + 2) ++ right.layout (k + 2))
  | relation _ left right op =>
    block k ("RelOp[" ++ op.name ++ "](") (left.layout (k + 2) ++ right.layout (k + 2))
  | unary _ operand op => block k ("UnaryOp[" ++ op.name ++ "](") (operand.layout (k + 2))
  | leaf _ token => [blanks k ++ token.display]
  | stray _ _ => []

/-- The lines of several trees at an indentation. -/
def layoutAll (k : Int) : List Node → List String
  | [] => []
  | n :: ns => n.layout k ++ layoutAll k ns

end

theorem layoutAll_eq_flatMap (k : Int) (ns : List Node) :
    layoutAll k ns = ns.flatMap (layout k) := by
  induction ns with
  | nil => rw [layoutAll, List.flatMap_nil]
  | cons n ns ih => rw [layoutAll, List.flatMap_cons, ih]

/-- A node opens as a single line if it is a leaf, and as a block around its children otherwise. -/
theorem layout_of_heading {n : Node} {heading : Heading} (h : n.heading = .ok heading) (k : Int) :
    n.layout k = match heading with
      | .single text => [blanks k ++ text]
      | .block text => block k text (n.children.flatMap (layout (k + 2))) := by
  cases n with
  | binding line name rhs =>
    rw [Node.heading] at h
    split at h <;> cases h
    simp [layout, children]
  | leaf line token =>
    rw [Node.heading] at h
    split at h <;> cases h
    rw [layout]
  | _ => cases h <;> simp [layout, children, layoutAll_eq_flatMap]

/-! ## Nodes that do not open -/

/-- The token that a node shows: a leaf its own, a binding in declaration form its name. -/
def shownToken? : Node → Option Token
  | binding _ name _ => some name
  | leaf _ token => some token
  | _ => none

/-- Every integer that the tree shows can be written. -/
def Legible (n : Node) : Prop :=
  ∀ m : Node, m.Occurs n → ∀ t, m.shownToken? = some t → t.IsWritable

/-- Why a node does not open, if it does not: it is a stray, or it shows a token that cannot be
written. -/
def ownFault? (n : Node) : Option NodeFault :=
  match n.variant, n.shownToken? with
  | .stray name, _ => some (.unknown name)
  | _, some t => if t.IsWritable then none else some .integerUnwritable
  | _, none => none

/-- The fault of the first node of a tree that does not open, in source order. -/
def fault? (n : Node) : Option NodeFault := n.nodes.findSome? ownFault?

/-- A node opens, or fails to by its own fault. -/
theorem heading_cases (n : Node) :
    (∃ heading, n.heading = .ok heading ∧ n.ownFault? = none) ∨
      ∃ fault, n.heading = .error fault ∧ n.ownFault? = some fault := by
  cases n with
  | binding line name rhs =>
    by_cases h : name.IsWritable <;> simp [heading, ownFault?, shownToken?, variant, h]
  | leaf line token =>
    by_cases h : token.IsWritable <;> simp [heading, ownFault?, shownToken?, variant, h]
  | stray line name => exact .inr ⟨_, rfl, rfl⟩
  | _ => exact .inl ⟨_, rfl, rfl⟩

theorem ownFault?_eq_none {n : Node} (h : ∀ name, n.variant ≠ .stray name)
    (hshown : ∀ t, n.shownToken? = some t → t.IsWritable) : n.ownFault? = none := by
  unfold ownFault?
  split
  · exact absurd ‹_› (h _)
  · exact if_pos (hshown _ ‹_›)
  · rfl

/-- A tree without strays that can be written has no fault. -/
theorem StrayFree.fault?_eq_none {n : Node} (h : n.StrayFree) (hlegible : n.Legible) :
    n.fault? = none := by
  refine List.findSome?_eq_none_iff.mpr fun m hm => ?_
  have hoccurs := mem_nodes_iff.mp hm
  exact ownFault?_eq_none (h m hoccurs) (hlegible m hoccurs)

/-- The fault of a tree is that of its root, or else the first of its children's. -/
theorem fault?_eq (n : Node) : n.fault? = n.ownFault?.or (n.children.findSome? fault?) := by
  have hrow : ∀ ms : List Node, (ms.flatMap nodes).findSome? ownFault? = ms.findSome? fault? := by
    intro ms
    induction ms with
    | nil => rfl
    | cons m ms ih =>
      rw [List.flatMap_cons, List.findSome?_append, ih, List.findSome?_cons]
      cases h : m.fault? <;> rw [fault?] at h <;> rw [h] <;> rfl
  rw [fault?, nodes_eq, List.findSome?_cons, hrow]
  cases n.ownFault? <;> rfl

/-- Whether a node is a leaf. -/
def isLeaf (n : Node) : Bool := n.variant == .leaf

theorem leaf_of_single {n : Node} {text : String} (h : n.heading = .ok (.single text)) :
    n.isLeaf = true ∧ n.children = [] := by
  cases n with
  | leaf line token => exact ⟨rfl, rfl⟩
  | binding line name rhs =>
    rw [heading] at h
    split at h <;> cases h
  | _ => cases h

theorem not_leaf_of_block {n : Node} {text : String} (h : n.heading = .ok (.block text)) :
    n.isLeaf = false := by
  cases n with
  | leaf line token =>
    rw [heading] at h
    split at h <;> cases h
  | _ => rfl

/-! ## Tasks and recursion -/

/-- Whatever is laid out by recursion, or fails by its first fault, wherever it stands. -/
def outcomeOf (fault? : Option NodeFault) (lines : List String) : Except NodeFault (List String) :=
  match fault? with
  | some fault => .error fault
  | none => .ok lines

/-- Trees in a row are laid out one after the other, up to the first fault. -/
theorem layoutTasks_eq {ms : List Node} {k : Int}
    (h : ∀ m ∈ ms, m.rows k = outcomeOf m.fault? (m.layout k)) :
    layoutTasks (ms.map (.node · k)) =
      outcomeOf (ms.findSome? fault?) (ms.flatMap (layout k)) := by
  induction ms with
  | nil =>
    rw [List.map_nil, layoutTasks]
    rfl
  | cons m ms ih =>
    obtain ⟨hm, hms⟩ := List.forall_mem_cons.mp h
    have hsplit : layoutTasks ((m :: ms).map (.node · k)) =
        joinLines (m.rows k) (layoutTasks (ms.map (.node · k))) :=
      layoutTasks_append [.node m k] (ms.map (.node · k))
    rw [hsplit, hm, ih hms, List.findSome?_cons, List.flatMap_cons]
    cases m.fault? <;> cases ms.findSome? fault? <;> rfl

/-- A tree is laid out by recursion, or fails by its first fault. -/
theorem rows_eq_layout (n : Node) (k : Int) : n.rows k = outcomeOf n.fault? (n.layout k) := by
  induction n using inductionOnChildren generalizing k with
  | step n ih =>
    rw [rows_eq, fault?_eq]
    rcases n.heading_cases with ⟨heading, hheading, hown⟩ | ⟨fault, hheading, hown⟩
    · rw [hheading, hown, layout_of_heading hheading, Option.none_or]
      cases heading with
      | single text =>
        rw [(leaf_of_single hheading).2, padding_eq_blanks]
        rfl
      | block text =>
        have hrow := layoutTasks_eq fun m hm => ih m hm (k + indentStep)
        simp only [hrow, padding_eq_blanks]
        cases n.children.findSome? fault? <;> rfl
    · rw [hheading, hown]
      rfl

/-- A tree without strays that can be written is laid out by recursion. -/
theorem StrayFree.rows {n : Node} (h : n.StrayFree) (hlegible : n.Legible) (k : Int) :
    n.rows k = .ok (n.layout k) := by
  rw [rows_eq_layout, h.fault?_eq_none hlegible]
  rfl

/-- At an index it makes no difference where the tree stands. -/
theorem lines_eq_layout {k : Int} (hk : IsIndex k) (n : Node) :
    n.lines k = outcomeOf n.fault? (n.layout k) := by
  rw [lines, if_pos hk, rows_eq_layout]

/-! ## Indentation and length -/

end Node

end MflFrontend
