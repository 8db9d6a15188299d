import MflFrontend.Node.Agreement

/-!
# Nodes in a tree

A node occurs in a tree if it is its root or occurs in a child of the root. A tree is free of strays
if no node that occurs in it is of an unknown variant; the own fields of such nodes, and of no
others, can be looked at.
-/

namespace MflFrontend

namespace Node

theorem size_le_sizeAll {m : Node} {ns : List Node} (h : m ∈ ns) : m.size ≤ sizeAll ns := by
  induction ns with
  | nil => cases h
  | cons n ns ih =>
    rw [sizeAll_cons]
    rcases List.mem_cons.mp h with rfl | h
    · exact Nat.le_add_right _ _
    · exact Nat.le_trans (ih h) (Nat.le_add_left _ _)

theorem size_lt_of_mem_children {m n : Node} (h : m ∈ n.children) : m.size < n.size := by
  rw [size_eq n]
  exact Nat.lt_succ_of_le (size_le_sizeAll h)

/-- What is handed on from the children of a node to the node holds of every tree. -/
@[elab_as_elim]
theorem inductionOnChildren {P : Node → Prop} (step : ∀ n, (∀ m ∈ n.children, P m) → P n)
    (n : Node) : P n :=
  step n fun m hm =>
    have := size_lt_of_mem_children hm
    inductionOnChildren step m
termination_by n.size

/-- The first node is the second, or is somewhere below it. -/
inductive Occurs (m : Node) : Node → Prop
  | self : Occurs m m
  | inside {n c : Node} (hc : c ∈ n.children) (h : Occurs m c) : Occurs m n

/-- No node of the tree is of an unknown variant. -/
def StrayFree (n : Node) : Prop := ∀ m : Node, m.Occurs n → ∀ name, m.variant ≠ .stray name

theorem StrayFree.child {m n : Node} (h : n.StrayFree) (hm : m ∈ n.children) : m.StrayFree :=
  fun l hl => h l (.inside hm hl)

theorem StrayFree.of_children {n : Node} (hroot : ∀ name, n.variant ≠ .stray name)
    (hchildren : ∀ m ∈ n.children, m.StrayFree) : n.StrayFree := by
  intro l hl
  cases hl with
  | self => exact hroot
  | inside hc h => exact hchildren _ hc l h

theorem Occurs.not_strayFree {n : Node} {line : Int} {name : String}
    (h : (stray line name).Occurs n) : ¬ n.StrayFree :=
  fun hfree => hfree _ h name rfl

theorem strayFree_iff {n : Node} :
    n.StrayFree ↔ ¬ ∃ line name, (stray line name).Occurs n := by
  refine ⟨fun h ⟨line, name, hoccurs⟩ => hoccurs.not_strayFree h, fun hnone m hm name hname => ?_⟩
  cases m <;> cases hname
  exact hnone ⟨_, name, hm⟩

/-- What is made of the tree fails by strays, and by nothing else. -/
structure FailsByStrays {α : Type} (n : Node) (outcome : Except NodeFault α) : Prop where
  /-- It fails exactly if a stray occurs in the tree. -/
  fails_iff : (∃ fault, outcome = .error fault) ↔ ∃ line name, (stray line name).Occurs n
  /-- The fault names a stray that occurs in the tree. -/
  fault : ∀ fault, outcome = .error fault → ∃ line name, (stray line name).Occurs n ∧
    fault.message = "Unknown syntax node type: " ++ name

theorem FailsByStrays.of_ok {α : Type} {n : Node} {a : α} (h : n.StrayFree) :
    n.FailsByStrays (Except.ok a) := by
  constructor
  · exact iff_of_false nofun (strayFree_iff.mp h)
  · exact nofun

theorem FailsByStrays.of_occurs {α : Type} {n : Node} {line : Int} {name : String}
    (h : (stray line name).Occurs n) :
    n.FailsByStrays (α := α) (Except.error (.unknown name)) := by
  constructor
  · exact iff_of_true ⟨_, rfl⟩ ⟨line, name, h⟩
  · intro fault hfault
    cases hfault
    exact ⟨line, name, h, rfl⟩

theorem ownKey_cases (n : Node) :
    (∃ key, n.ownKey = .ok key ∧ ∀ name, n.variant ≠ .stray name) ∨
      ∃ name, n.ownKey = .error (.unknown name) ∧ n.variant = .stray name := by
  cases n with
  | stray line name => exact .inr ⟨name, rfl, rfl⟩
  | _ => exact .inl ⟨_, rfl, nofun⟩

theorem ownKey_of_stray {n : Node} {name : String} (h : n.variant = .stray name) :
    n.ownKey = .error (.unknown name) := by
  cases n <;> cases h
  rfl

theorem children_of_stray {n : Node} {name : String} (h : n.variant = .stray name) :
    n.children = [] := by
  cases n <;> cases h
  rfl

/-- The nodes of a tree: its root, and then those of its children in source order. -/
def nodes (n : Node) : List Node :=
  n :: n.children.attach.flatMap fun m =>
    have := size_lt_of_mem_children m.2
    nodes m.1
termination_by n.size

theorem nodes_eq (n : Node) : n.nodes = n :: n.children.flatMap nodes := by
  rw [nodes]
  simp

/-- The nodes of a tree are those that occur in it. -/
theorem mem_nodes_iff {m n : Node} : m ∈ n.nodes ↔ m.Occurs n := by
  induction n using inductionOnChildren with
  | step n ih =>
    rw [nodes_eq, List.mem_cons, List.mem_flatMap]
    constructor
    · rintro (rfl | ⟨c, hc, hm⟩)
      · exact .self
      · exact .inside hc ((ih c hc).mp hm)
    · intro h
      cases h with
      | self => exact .inl rfl
      | inside hc h => exact .inr ⟨_, hc, (ih _ hc).mpr h⟩

theorem StrayFree.exists_ownKey {n : Node} (h : n.StrayFree) : ∃ key, n.ownKey = .ok key := by
  rcases n.ownKey_cases with ⟨key, hkey, -⟩ | ⟨name, -, hname⟩
  · exact ⟨key, hkey⟩
  · exact absurd hname (h n .self name)

end Node

end MflFrontend
