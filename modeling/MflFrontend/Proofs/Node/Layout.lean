import MflFrontend.Node.Layout
import Mathlib.Data.List.Forall2

/-!
# Laying out several trees

Tasks are laid out one after the other: the lines of several tasks are the lines of each, in order,
and the first fault among them is the fault of all.
-/

namespace MflFrontend

namespace Node

/-- The lines of a first part before those of a second, or the first fault. -/
def joinLines (a b : Except NodeFault (List String)) : Except NodeFault (List String) :=
  a.bind fun xs => b.map (xs ++ ·)

theorem joinLines_map (text : String) (a b : Except NodeFault (List String)) :
    joinLines (a.map (text :: ·)) b = (joinLines a b).map (text :: ·) := by
  cases a <;> cases b <;> rfl

/-- Tasks in a row are laid out in a row. -/
theorem layoutTasks_append (as bs : List LayoutTask) :
    layoutTasks (as ++ bs) = joinLines (layoutTasks as) (layoutTasks bs) := by
  fun_induction layoutTasks as with
  | case1 =>
    cases h : layoutTasks bs <;> rw [List.nil_append, h] <;> rfl
  | case2 text pending ih =>
    rw [List.cons_append, layoutTasks, ih, joinLines_map]
  | case3 n indent pending fault h =>
    rw [List.cons_append, layoutTasks]
    simp only [h]
    rfl
  | case4 n indent pending text h ih =>
    rw [List.cons_append, layoutTasks]
    simp only [h]
    rw [ih, joinLines_map]
  | case5 n indent pending text h ih =>
    rw [List.cons_append, layoutTasks]
    simp only [h]
    rw [List.append_assoc, List.cons_append] at ih
    rw [ih, joinLines_map]

/-- A block is its opening line, the lines of its children and a closing parenthesis. -/
theorem rows_eq (n : Node) (k : Int) : n.rows k =
    match n.heading with
    | .error fault => .error fault
    | .ok (.single text) => .ok [padding k ++ text]
    | .ok (.block text) =>
      (joinLines (layoutTasks (n.children.map (.node · (k + indentStep)))) (.ok [padding k ++ ")"])).map
        ((padding k ++ text) :: ·) := by
  have hclose : layoutTasks [.line (padding k ++ ")")] = .ok [padding k ++ ")"] := by
    rw [layoutTasks, layoutTasks]
    rfl
  rw [rows, layoutTasks]
  cases n.heading with
  | error fault => rfl
  | ok heading =>
    cases heading with
    | single text =>
      simp only [layoutTasks]
      rfl
    | block text => simp only [layoutTasks_append, hclose]

/-- Trees that can be laid out one by one can be laid out in a row. -/
theorem exists_layout {ms : List Node} {k : Int} (h : ∀ m ∈ ms, ∃ ls, m.rows k = .ok ls) :
    ∃ ls, layoutTasks (ms.map (.node · k)) = .ok ls := by
  induction ms with
  | nil => exact ⟨[], by rw [List.map_nil, layoutTasks]⟩
  | cons m ms ih =>
    obtain ⟨hm, hms⟩ := List.forall_mem_cons.mp h
    obtain ⟨ls, hls⟩ := hm
    obtain ⟨ls', hls'⟩ := ih hms
    have hfirst : layoutTasks [.node m k] = .ok ls := hls
    refine ⟨ls ++ ls', ?_⟩
    rw [List.map_cons, ← List.singleton_append, layoutTasks_append, hfirst, hls']
    rfl

/-- A node that opens, with children that can be laid out, can be laid out. -/
theorem exists_rows {n : Node} {heading : Heading} (hheading : n.heading = .ok heading)
    (hchildren : ∀ m ∈ n.children, ∀ k, ∃ ls, m.rows k = .ok ls) (k : Int) :
    ∃ ls, n.rows k = .ok ls := by
  obtain ⟨ls, hls⟩ := exists_layout fun m hm => hchildren m hm (k + indentStep)
  rw [rows_eq, hheading]
  cases heading with
  | single text => exact ⟨_, rfl⟩
  | block text =>
    simp only [hls]
    exact ⟨_, rfl⟩

/-- Trees that are laid out alike one by one are laid out alike in a row. -/
theorem layoutTasks_congr {ms ms' : List Node}
    (h : List.Forall₂ (fun m m' : Node => ∀ k, m.rows k = m'.rows k) ms ms') (k : Int) :
    layoutTasks (ms.map (.node · k)) = layoutTasks (ms'.map (.node · k)) := by
  induction h with
  | nil => rfl
  | @cons m m' ms ms' hm _ ih =>
    have hfirst : layoutTasks [.node m k] = layoutTasks [.node m' k] := hm k
    have hsplit : ∀ (m : Node) ms, (m :: ms).map (LayoutTask.node · k) =
        [.node m k] ++ ms.map (.node · k) := fun _ _ => rfl
    rw [hsplit, hsplit, layoutTasks_append, layoutTasks_append, ih, hfirst]

/-- Nodes that open alike, with children that are laid out alike, are laid out alike. -/
theorem rows_congr {n n' : Node} (hheading : n.heading = n'.heading)
    (hchildren : List.Forall₂ (fun m m' : Node => ∀ k, m.rows k = m'.rows k)
      n.children n'.children) (k : Int) : n.rows k = n'.rows k := by
  rw [rows_eq, rows_eq, hheading, layoutTasks_congr hchildren]

/-- An indentation of zero is asked for by whoever prints a program. -/
theorem lines_zero (n : Node) : n.lines 0 = n.rows 0 := if_pos (by decide)

/-- The lines of the statements under the root of a program. -/
def statementLines (ns : List Node) : Except NodeFault (List String) :=
  layoutTasks (ns.map (.node · indentStep))

theorem statementLines_append (ns ms : List Node) :
    statementLines (ns ++ ms) = joinLines (statementLines ns) (statementLines ms) := by
  unfold statementLines
  rw [List.map_append, layoutTasks_append]

end Node

/-- The tree is laid out as these lines between the two of its root. -/
def SyntaxTree.HasInner (tree : SyntaxTree) (inner : List String) : Prop :=
  tree.root.lines 0 = .ok ("Prog(" :: (inner ++ [")"]))

/-- The lines between the two of its root are those of its statements. -/
theorem hasInner_program {ns : List Node} {inner : List String}
    (h : Node.statementLines ns = .ok inner) (line : Int) :
    SyntaxTree.HasInner ⟨.program line ns⟩ inner := by
  have hchildren : Node.layoutTasks
      ((Node.program line ns).children.map (.node · (0 + indentStep))) = .ok inner := h
  unfold SyntaxTree.HasInner
  rw [Node.lines_zero, Node.rows_eq, hchildren]
  rfl

end MflFrontend
