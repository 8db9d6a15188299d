import MflFrontend.Node.Basic

/-!
# The indented layout of a tree

A leaf is one line that shows its token. Any other node is an opening line with its name, then its
children two places further in, then a closing parenthesis. Indentation below zero is none, but the
number that is asked for has to be an index of a text all the same. Of the numbers for what lies
further in this is not asked again: a text is not long enough for the first of them that is none.

The lines are written off a list of things still to do, so that no tree is too deep for it.
-/

namespace MflFrontend

/-- By how much a child is indented against its parent. -/
def indentStep : Int := 2

/-- Whether an integer is an index of a text. -/
def IsIndex (n : Int) : Prop := -(pow2 63 : Int) ≤ n ∧ n < pow2 63

instance (n : Int) : Decidable (IsIndex n) := inferInstanceAs (Decidable (_ ∧ _))

/-- The blanks in front of a line that is indented by an index. -/
def padding (indent : Int) : String := String.ofList (List.replicate indent.toNat ' ')

/-- How a node opens. -/
inductive Heading where
  /-- The node is a single line. -/
  | single (text : String)
  /-- The node is a block that opens with this line. -/
  | block (text : String)

namespace Node

/-- How a node opens: a leaf shows its token, all others open a block. -/
def heading : Node → Except NodeFault Heading
  | program _ _ => .ok (.block "Prog(")
  | binding _ name _ =>
    if name.IsWritable then .ok (.block ("Val[" ++ name.value.displayBare ++ "]("))
    else .error .integerUnwritable
  | binary _ _ _ op => .ok (.block ("BinOp[" ++ op.name ++ "]("))
  | relation _ _ _ op => .ok (.block ("RelOp[" ++ op.name ++ "]("))
  | unary _ _ op => .ok (.block ("UnaryOp[" ++ op.name ++ "]("))
  | leaf _ token =>
    if token.IsWritable then .ok (.single token.display) else .error .integerUnwritable
  | stray _ name => .error (.unknown name)

/-- What is still to be laid out. -/
inductive LayoutTask where
  /-- A tree at an indentation. -/
  | node (n : Node) (indent : Int)
  /-- A line that is finished. -/
  | line (text : String)

namespace LayoutTask

/-- More than the lines that a task leads to. -/
def weight : LayoutTask → Nat
  | node n _ => 2 * n.size
  | line _ => 1

/-- The weight of several tasks. -/
def weightAll : List LayoutTask → Nat
  | [] => 0
  | t :: ts => t.weight + weightAll ts

@[simp] theorem weightAll_nil : weightAll [] = 0 := rfl

@[simp] theorem weightAll_cons (t : LayoutTask) (ts : List LayoutTask) :
    weightAll (t :: ts) = t.weight + weightAll ts := rfl

@[simp] theorem weightAll_append (ts us : List LayoutTask) :
    weightAll (ts ++ us) = weightAll ts + weightAll us := by
  induction ts with
  | nil => simp
  | cons t ts ih => simp [ih, Nat.add_assoc]

/-- Trees weigh twice their nodes, wherever they stand. -/
@[simp] theorem weightAll_node (ns : List Node) (indent : Int) :
    weightAll (ns.map (node · indent)) = 2 * sizeAll ns := by
  induction ns with
  | nil => simp
  | cons n ns ih =>
    simp only [List.map_cons, weightAll_cons, ih, sizeAll_cons, weight]
    omega

end LayoutTask

/-- The lines of all tasks, in order. -/
def layoutTasks : List LayoutTask → Except NodeFault (List String)
  | [] => .ok []
  | .line text :: pending => (layoutTasks pending).map (text :: ·)
  | .node n indent :: pending =>
    match n.heading with
    | .error fault => .error fault
    | .ok (.single text) => (layoutTasks pending).map ((padding indent ++ text) :: ·)
    | .ok (.block text) =>
      (layoutTasks
        (n.children.map (.node · (indent + indentStep)) ++
          .line (padding indent ++ ")") :: pending)).map
        ((padding indent ++ text) :: ·)
termination_by tasks => LayoutTask.weightAll tasks
decreasing_by
  · simp only [LayoutTask.weightAll_cons, LayoutTask.weight]
    omega
  · simp only [LayoutTask.weightAll_cons, LayoutTask.weight, size_eq n]
    omega
  · simp only [LayoutTask.weightAll_append, LayoutTask.weightAll_cons, LayoutTask.weightAll_node,
      LayoutTask.weight, size_eq n]
    omega

/-- The lines of a tree at an indentation that is an index. -/
def rows (n : Node) (indent : Int) : Except NodeFault (List String) :=
  layoutTasks [.node n indent]

/-- The lines of a tree at an indentation. -/
def lines (n : Node) (indent : Int) : Except NodeFault (List String) :=
  if IsIndex indent then n.rows indent else .error .indentOutOfRange

/-- The lines of a tree as one text. -/
def render (n : Node) (indent : Int) : Except NodeFault String :=
  (n.lines indent).map "\n".intercalate

/-- The rendered tree with the last line closed. -/
def printed (n : Node) (indent : Int) : Except NodeFault String :=
  (n.render indent).map (· ++ "\n")

end Node

end MflFrontend
