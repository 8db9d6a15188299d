import MflFrontend.Node.Basic
import MflFrontend.Text.Document

/-!
# Trees as records

The record of a node has its variant, its line, its own fields and the records of its children. Of a
token only the kind and the value are kept, of a bound name only the value.

A record is first put together in slots. Each slot is for one node, and its fields refer to the slots
of the children. The slots are opened when the parent is visited and filled when the child is, off a
list of things still to do, so that no tree is too deep for it. At the end the first slot is read
with all that it refers to.
-/

namespace MflFrontend

/-- What a field of a slot holds. -/
inductive SlotField where
  /-- A value. -/
  | value (v : Value)
  /-- What is in another slot. -/
  | child (slot : Nat)
  /-- What is in other slots, in order. -/
  | children (slots : List Nat)

/-- The fields of a slot, in order. A slot that was opened and not filled has none. -/
abbrev Slot := List (String × SlotField)

namespace Slot

/-- The fields that every node starts with. -/
def opening (kind : String) (line : Int) : Slot :=
  [("kind", .value (.text kind)), ("line", .value (.int line))]

/-- The fields of an operator and two operands. -/
def operands (op : TokenKind) (first : Nat) : Slot :=
  [("op", .value (.text op.name)), ("left", .child first), ("right", .child (first + 1))]

end Slot

namespace Node

/-- The fields of a node whose children have the slots from `first` on. -/
def fields (n : Node) (first : Nat) : Except NodeFault Slot :=
  match n with
  | program line statements =>
    .ok (Slot.opening "prog" line ++ [("statements", .children (List.range' first statements.length))])
  | binding line name _ =>
    .ok (Slot.opening "val" line ++ [("name", .value name.value), ("rhs", .child first)])
  | binary line _ _ op => .ok (Slot.opening "binop" line ++ Slot.operands op first)
  | relation line _ _ op => .ok (Slot.opening "relop" line ++ Slot.operands op first)
  | unary line _ op =>
    .ok (Slot.opening "unary" line ++ [("op", .value (.text op.name)), ("operand", .child first)])
  | leaf line token =>
    .ok (Slot.opening "token" line ++
      [("token_type", .value (.text token.kind.name)), ("value", .value token.value)])
  | stray _ name => .error (.unknown name)

/-- Fills the slots of the nodes in the list, and the slots below them. The children that were opened
last come first. -/
def fillSlots : List (Node × Nat) → Array Slot → Except NodeFault (Array Slot)
  | [], slots => .ok slots
  | (n, i) :: pending, slots =>
    match n.fields slots.size with
    | .error fault => .error fault
    | .ok slot =>
      fillSlots ((n.children.zipIdx slots.size).reverse ++ pending)
        (slots.setIfInBounds i slot ++ Array.replicate n.children.length [])
termination_by pending => sizeAll (pending.map Prod.fst)
decreasing_by
  simp only [List.map_append, List.map_reverse, List.zipIdx_map_fst, List.map_cons, sizeAll_append,
    sizeAll_reverse, sizeAll_cons, size_eq n]
  omega

end Node

/-- The document in a slot. What a slot refers to was opened after it. -/
def readSlot (slots : Array Slot) (i : Nat) : Document :=
  let later (j : Nat) : Document := if _h : i < j ∧ j < slots.size then readSlot slots j else .record []
  .record ((slots.getD i []).map fun (name, field) =>
    (name, match field with
      | .value v => .value v
      | .child j => later j
      | .children js => .list (js.map later)))
termination_by slots.size - i

/-- The record of a tree. -/
def Node.record (n : Node) : Except NodeFault Document :=
  (Node.fillSlots [(n, 0)] #[[]]).map (readSlot · 0)

end MflFrontend
