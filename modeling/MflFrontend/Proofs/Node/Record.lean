import MflFrontend.Node.Record
import MflFrontend.Proofs.Lexing.Respacing
import MflFrontend.Proofs.Node.Descendants
import MflFrontend.Proofs.Node.Resemblance

/-!
# The record of a tree by recursion

Records are put together in slots, which are opened at one time and filled at another. Said by
recursion, the record of a node has its own fields and, each in its own field, the records of its
children. The main statement is that the two are the same for every tree without strays, that strays
are what records fail by, and that a record tells all of its tree but the places of its tokens and
the kinds of the names that are bound in declaration form.

The induction is on what is still to be done. It carries that each slot of the list is filled with
the record of its node, and that every other slot is left as it is: what was filled before stays.
-/

namespace MflFrontend

namespace Node

/-! ## Records by recursion -/

mutual

/-- The record of a tree. A stray has no fields. -/
def document : Node → Document
  | program line statements =>
    .record [("kind", .value (.text "prog")), ("line", .value (.int line)),
      ("statements", .list (documents statements))]
  | binding line name rhs =>
    .record [("kind", .value (.text "val")), ("line", .value (.int line)),
      ("name", .value name.value), ("rhs", rhs.document)]
  | binary line left right op =>
    .record [("kind", .value (.text "binop")), ("line", .value (.int line)),
      ("op", .value (.text op.name)), ("left", left.document), ("right", right.document)]
  | relation line left right op =>
    .record [("kind", .value (.text "relop")), ("line", .value (.int line)),
      ("op", .value (.text op.name)), ("left", left.document), ("right", right.document)]
  | unary line operand op =>
    .record [("kind", .value (.text "unary")), ("line", .value (.int line)),
      ("op", .value (.text op.name)), ("operand", operand.document)]
  | leaf line token =>
    .record [("kind", .value (.text "token")), ("line", .value (.int line)),
      ("token_type", .value (.text token.kind.name)), ("value", .value token.value)]
  | stray _ _ => .record []

/-- The records of several trees. -/
def documents : List Node → List Document
  | [] => []
  | n :: ns => n.document :: documents ns

end

theorem documents_eq_map (ns : List Node) : documents ns = ns.map document := by
  induction ns with
  | nil => rw [documents, List.map_nil]
  | cons n ns ih => rw [documents, List.map_cons, ih]

/-! ## Slots and recursion -/

/-- The slots behind a slot are read without asking again. -/
theorem readSlot_eq (slots : Array Slot) (i : Nat) : readSlot slots i =
    .record ((slots.getD i []).map fun (name, field) =>
      (name, match field with
        | .value v => .value v
        | .child j => if i < j ∧ j < slots.size then readSlot slots j else .record []
        | .children js => .list (js.map fun j =>
          if i < j ∧ j < slots.size then readSlot slots j else .record []))) := by
  rw [readSlot]
  rfl

/-- A slot that holds the fields of a node is read as the record of the node if those of its children
are read as theirs. -/
theorem readSlot_of_fields {n : Node} {slots : Array Slot} {i first : Nat} {slot : Slot}
    (h : n.fields first = .ok slot) (hslot : slots[i]? = some slot) (hbehind : i < first)
    (hsize : first + n.children.length ≤ slots.size)
    (hchildren : ∀ t ∈ n.children.zipIdx first, readSlot slots t.2 = t.1.document) :
    readSlot slots i = n.document := by
  have hget : slots.getD i [] = slot := by
    rw [Array.getD_eq_getD_getElem?, hslot]
    rfl
  have hlater : ∀ {c : Nat} {m : Node}, n.children[c]? = some m →
      (if i < first + c ∧ first + c < slots.size then readSlot slots (first + c)
        else .record []) = m.document := by
    intro c m hm
    obtain ⟨hc, -⟩ := List.getElem?_eq_some_iff.mp hm
    have hmem : (m, first + c) ∈ n.children.zipIdx first :=
      List.mk_add_mem_zipIdx_iff_getElem?.mpr hm
    rw [if_pos (by omega), hchildren _ hmem]
  rw [readSlot_eq, hget]
  cases n with
  | program line statements =>
    cases h
    have hitems : (List.range' first statements.length).map (fun j =>
        if i < j ∧ j < slots.size then readSlot slots j else .record []) =
        statements.map document := by
      refine List.ext_getElem (by simp) fun c hc hc' => ?_
      rw [List.getElem_map, List.getElem_range', List.getElem_map, Nat.one_mul]
      have hstatements : c < statements.length := by simpa using hc'
      exact hlater (List.getElem?_eq_getElem hstatements)
    simp [Slot.opening, document, documents_eq_map, hitems]
  | binding line name rhs =>
    cases h
    have hrhs := hlater (c := 0) rfl
    rw [Nat.add_zero] at hrhs
    simp [Slot.opening, document, hrhs]
  | binary line left right op =>
    cases h
    have hleft := hlater (c := 0) rfl
    have hright := hlater (c := 1) rfl
    rw [Nat.add_zero] at hleft
    simp only [Slot.opening, Slot.operands, document, List.map_cons,
      List.map_nil, List.cons_append, List.nil_append, hleft, hright]
  | relation line left right op =>
    cases h
    have hleft := hlater (c := 0) rfl
    have hright := hlater (c := 1) rfl
    rw [Nat.add_zero] at hleft
    simp only [Slot.opening, Slot.operands, document, List.map_cons,
      List.map_nil, List.cons_append, List.nil_append, hleft, hright]
  | unary line operand op =>
    cases h
    have hoperand := hlater (c := 0) rfl
    rw [Nat.add_zero] at hoperand
    simp [Slot.opening, document, hoperand]
  | leaf line token =>
    cases h
    simp [Slot.opening, document]
  | stray line name => cases h

/-- The slots of the nodes in the list are open, and no two nodes have the same. -/
structure Opened (pending : List (Node × Nat)) (slots : Array Slot) : Prop where
  /-- There are such slots. -/
  lt : ∀ t ∈ pending, t.2 < slots.size
  /-- They are apart. -/
  nodup : (pending.map Prod.snd).Nodup

/-- The slots of the nodes in the list were filled, and no others that were there. -/
structure Filled (pending : List (Node × Nat)) (slots out : Array Slot) : Prop where
  /-- No slot is closed. -/
  size_le : slots.size ≤ out.size
  /-- The other slots are as they were. -/
  kept : ∀ j < slots.size, j ∉ pending.map Prod.snd → out[j]? = slots[j]?
  /-- Each slot of the list holds the record of its node. -/
  filled : ∀ t ∈ pending, readSlot out t.2 = t.1.document

section

variable {n : Node} {i : Nat} {pending : List (Node × Nat)} {slots : Array Slot} {slot : Slot}

theorem getElem?_fill {j : Nat} (hj : j < slots.size) (hi : i < slots.size) (count : Nat) :
    (slots.setIfInBounds i slot ++ Array.replicate count [])[j]? =
      if i = j then some slot else slots[j]? := by
  rw [Array.getElem?_append_left (by simpa using hj), Array.getElem?_setIfInBounds]
  split <;> simp [*]

/-- The slots of the children are opened behind all others. -/
theorem Opened.visit (h : Opened ((n, i) :: pending) slots) :
    Opened ((n.children.zipIdx slots.size).reverse ++ pending)
      (slots.setIfInBounds i slot ++ Array.replicate n.children.length []) := by
  obtain ⟨-, hpending⟩ := List.forall_mem_cons.mp h.lt
  constructor
  case lt =>
    intro t ht
    rw [Array.size_append, Array.size_setIfInBounds, Array.size_replicate]
    rcases List.mem_append.mp ht with ht | ht
    · exact List.snd_lt_add_of_mem_zipIdx (List.mem_reverse.mp ht)
    · exact Nat.lt_add_right _ (hpending t ht)
  case nodup =>
    have hrest : (pending.map Prod.snd).Nodup := (List.nodup_cons.mp h.nodup).2
    rw [List.map_append, List.map_reverse, List.zipIdx_map_snd]
    refine List.nodup_append.mpr ⟨List.nodup_reverse.mpr List.nodup_range', hrest, ?_⟩
    intro j hj k hk
    obtain ⟨t, ht, rfl⟩ := List.mem_map.mp hk
    have hback := (List.mem_range'_1.mp (List.mem_reverse.mp hj)).1
    exact Nat.ne_of_gt (Nat.lt_of_lt_of_le (hpending t ht) hback)

/-- A node is done once its children are. -/
theorem Filled.of_visit {out : Array Slot} (hfields : n.fields slots.size = .ok slot)
    (hopened : Opened ((n, i) :: pending) slots)
    (h : Filled ((n.children.zipIdx slots.size).reverse ++ pending)
      (slots.setIfInBounds i slot ++ Array.replicate n.children.length []) out) :
    Filled ((n, i) :: pending) slots out := by
  obtain ⟨hi, hpending⟩ := List.forall_mem_cons.mp hopened.lt
  have hsize : slots.size + n.children.length ≤ out.size := by
    simpa using h.size_le
  have hnew : ∀ j < slots.size, j ∉ pending.map Prod.snd →
      out[j]? = if i = j then some slot else slots[j]? := by
    intro j hj hnot
    rw [h.kept j (by simpa using Nat.lt_add_right _ hj), getElem?_fill hj hi]
    rw [List.map_append, List.map_reverse, List.zipIdx_map_snd, List.mem_append, not_or]
    refine ⟨fun hmem => ?_, hnot⟩
    exact Nat.not_lt.mpr (List.mem_range'_1.mp (List.mem_reverse.mp hmem)).1 hj
  constructor
  case size_le => omega
  case kept =>
    intro j hj hnot
    rw [List.map_cons, List.mem_cons, not_or] at hnot
    rw [hnew j hj hnot.2, if_neg fun hij => hnot.1 hij.symm]
  case filled =>
    refine List.forall_mem_cons.mpr ⟨?_, fun t ht => h.filled t (List.mem_append_right _ ht)⟩
    refine readSlot_of_fields hfields ?_ hi hsize fun t ht =>
      h.filled t (List.mem_append_left _ (List.mem_reverse.mpr ht))
    rw [hnew i hi (List.nodup_cons.mp hopened.nodup).1, if_pos rfl]

end

theorem fields_cases (n : Node) (first : Nat) :
    (∃ slot, n.fields first = .ok slot ∧ ∀ name, n.variant ≠ .stray name) ∨
      ∃ line name, n = stray line name := by
  cases n with
  | stray line name => exact .inr ⟨line, name, rfl⟩
  | _ => exact .inl ⟨_, rfl, nofun⟩

/-- Slots that are open are filled, unless a stray stands in one of the trees. -/
theorem fillSlots_cases {pending : List (Node × Nat)} {slots : Array Slot}
    (h : Opened pending slots) :
    ((∀ t ∈ pending, t.1.StrayFree) ∧
      ∃ out, fillSlots pending slots = .ok out ∧ Filled pending slots out) ∨
    ∃ t ∈ pending, ∃ line name, (stray line name).Occurs t.1 ∧
      fillSlots pending slots = .error (.unknown name) := by
  fun_induction fillSlots pending slots with
  | case1 slots => exact .inl ⟨nofun, slots, rfl, ⟨Nat.le_refl _, fun _ _ _ => rfl, nofun⟩⟩
  | case2 n i pending slots fault hfault =>
    rcases n.fields_cases slots.size with ⟨slot, hslot, -⟩ | ⟨line, name, rfl⟩
    · rw [hslot] at hfault
      cases hfault
    · cases hfault
      exact .inr ⟨_, List.mem_cons_self, line, name, .self, rfl⟩
  | case3 n i pending slots slot hslot ih =>
    rcases ih h.visit with ⟨hfree, out, hout, hfilled⟩ | ⟨t, ht, line, name, hoccurs, hfault⟩
    · rcases n.fields_cases slots.size with ⟨-, -, hvariant⟩ | ⟨line, name, rfl⟩
      · refine .inl ⟨List.forall_mem_cons.mpr ⟨.of_children hvariant fun m hm => ?_,
          fun t ht => hfree t (List.mem_append_right _ ht)⟩, out, hout, .of_visit hslot h hfilled⟩
        obtain ⟨c, hc, rfl⟩ := List.getElem_of_mem hm
        refine hfree (n.children[c], slots.size + c) (List.mem_append_left _ ?_)
        rw [List.mem_reverse, List.mk_add_mem_zipIdx_iff_getElem?]
        exact List.getElem?_eq_getElem hc
      · cases hslot
    · rcases List.mem_append.mp ht with ht | ht
      · have hchild : t.1 ∈ n.children := List.fst_mem_of_mem_zipIdx (List.mem_reverse.mp ht)
        exact .inr ⟨_, List.mem_cons_self, line, name, .inside hchild hoccurs, hfault⟩
      · exact .inr ⟨t, List.mem_cons_of_mem _ ht, line, name, hoccurs, hfault⟩

/-- A tree has the record of the recursion or fails by one of its strays. -/
theorem record_cases (n : Node) : (n.StrayFree ∧ n.record = .ok n.document) ∨
    ∃ line name, (stray line name).Occurs n ∧ n.record = .error (.unknown name) := by
  have hopened : Opened [(n, 0)] #[[]] :=
    ⟨List.forall_mem_singleton.mpr Nat.zero_lt_one, List.nodup_singleton 0⟩
  rcases fillSlots_cases hopened with ⟨hfree, out, hout, hfilled⟩ | ⟨t, ht, line, name, hoccurs, hfault⟩
  · refine .inl ⟨hfree _ (List.mem_singleton_self _), ?_⟩
    rw [record, hout, ← hfilled.filled _ (List.mem_singleton_self _)]
    rfl
  · obtain rfl := List.mem_singleton.mp ht
    refine .inr ⟨line, name, hoccurs, ?_⟩
    rw [record, hfault]
    rfl

/-- A tree without strays has the record of the recursion. -/
theorem StrayFree.record {n : Node} (h : n.StrayFree) : n.record = .ok n.document := by
  rcases n.record_cases with ⟨-, hrecord⟩ | ⟨line, name, hoccurs, -⟩
  · exact hrecord
  · exact absurd h hoccurs.not_strayFree

/-! ## What a record tells -/

/-- The trees are the same but for the places of their tokens and the kinds of names bound in
declaration form: the lines of their nodes, their operators, the kinds and values of the tokens of
their leaves and the values of such names are the same. -/
def SameContent : Node → Node → Prop :=
  Resembles Eq (fun name name' => name.value = name'.value) Token.Alike

/-- A record tells what the root says and the records of its children. -/
theorem roots_of_document {a b : Node} (ha : a.StrayFree) (hb : b.StrayFree)
    (h : a.document = b.document) :
    RootsResemble Eq (fun name name' => name.value = name'.value) Token.Alike a b ∧
      a.children.map document = b.children.map document := by
  cases a <;> cases b
  case program.program =>
    simp only [document, documents_eq_map, Document.record.injEq, List.cons.injEq,
      Prod.mk.injEq, Document.value.injEq, Value.int.injEq, Document.list.injEq, true_and,
      and_true] at h
    exact ⟨.program h.1, h.2⟩
  case binding.binding =>
    simp only [document, Document.record.injEq, List.cons.injEq, Prod.mk.injEq,
      Document.value.injEq, Value.int.injEq, true_and, and_true] at h
    exact ⟨.binding h.1 h.2.1, by simp only [children, List.map_cons, List.map_nil, h.2.2]⟩
  case binary.binary =>
    simp only [document, Document.record.injEq, List.cons.injEq, Prod.mk.injEq,
      Document.value.injEq, Value.int.injEq, Value.text.injEq, TokenKind.name_inj, true_and,
      and_true] at h
    obtain ⟨hline, rfl, hleft, hright⟩ := h
    exact ⟨.binary hline, by simp only [children, List.map_cons, List.map_nil, hleft, hright]⟩
  case relation.relation =>
    simp only [document, Document.record.injEq, List.cons.injEq, Prod.mk.injEq,
      Document.value.injEq, Value.int.injEq, Value.text.injEq, TokenKind.name_inj, true_and,
      and_true] at h
    obtain ⟨hline, rfl, hleft, hright⟩ := h
    exact ⟨.relation hline, by simp only [children, List.map_cons, List.map_nil, hleft, hright]⟩
  case unary.unary =>
    simp only [document, Document.record.injEq, List.cons.injEq, Prod.mk.injEq,
      Document.value.injEq, Value.int.injEq, Value.text.injEq, TokenKind.name_inj, true_and,
      and_true] at h
    obtain ⟨hline, rfl, hoperand⟩ := h
    exact ⟨.unary hline, by simp only [children, List.map_cons, List.map_nil, hoperand]⟩
  case leaf.leaf =>
    simp only [document, Document.record.injEq, List.cons.injEq, Prod.mk.injEq,
      Document.value.injEq, Value.int.injEq, Value.text.injEq, TokenKind.name_inj, true_and,
      and_true] at h
    obtain ⟨hline, hkind, hvalue⟩ := h
    exact ⟨.leaf hline ⟨hkind, hvalue⟩, rfl⟩
  -- the records of two variants differ in the first field
  all_goals
    first
    | exact absurd rfl (ha _ .self _)
    | exact absurd rfl (hb _ .self _)
    | exact absurd h (by simp [document])

/-- What a root says and the records of its children make its record. -/
theorem document_of_roots {a b : Node}
    (hroots : RootsResemble Eq (fun name name' => name.value = name'.value) Token.Alike a b)
    (hdocuments : a.children.map document = b.children.map document) :
    a.document = b.document := by
  cases hroots with
  | program hline =>
    simp only [document, documents_eq_map, hline]
    simp only [children] at hdocuments
    rw [hdocuments]
  | binding hline hname =>
    simp only [children, List.map_cons, List.map_nil, List.cons.injEq, and_true] at hdocuments
    simp only [document, hline, hname, hdocuments]
  | binary hline =>
    simp only [children, List.map_cons, List.map_nil, List.cons.injEq, and_true] at hdocuments
    simp only [document, hline, hdocuments]
  | relation hline =>
    simp only [children, List.map_cons, List.map_nil, List.cons.injEq, and_true] at hdocuments
    simp only [document, hline, hdocuments]
  | unary hline =>
    simp only [children, List.map_cons, List.map_nil, List.cons.injEq, and_true] at hdocuments
    simp only [document, hline, hdocuments]
  | leaf hline htoken => simp only [document, hline, htoken.kind, htoken.value]

/-- The record of a tree without strays tells its content. -/
theorem document_eq_iff {a b : Node} (ha : a.StrayFree) (hb : b.StrayFree) :
    a.document = b.document ↔ a.SameContent b := by
  induction a using inductionOnChildren generalizing b with
  | step a ih =>
    have hchildren : a.children.map document = b.children.map document ↔
        List.Forall₂ SameContent a.children b.children :=
      map_eq_map_iff fun m hm n hn => ih m hm (ha.child hm) (hb.child hn)
    rw [SameContent, resembles_iff, ← SameContent, ← hchildren]
    exact ⟨roots_of_document ha hb, fun ⟨hroots, hdocuments⟩ => document_of_roots hroots hdocuments⟩

/-! ## The record of any tree -/

/-- Records fail by strays alone; every tree without strays has the record of the recursion; and two
such trees have the same record if and only if they have the same content. -/
theorem record_by_recursion :
    (∀ n : Node, n.FailsByStrays n.record ∧ (n.StrayFree → n.record = .ok n.document)) ∧
    ∀ a b : Node, a.StrayFree → b.StrayFree →
      ((∃ d, a.record = .ok d ∧ b.record = .ok d) ↔ a.SameContent b) := by
  refine ⟨fun n => ⟨?_, StrayFree.record⟩, fun a b ha hb => ?_⟩
  · rcases n.record_cases with ⟨hfree, hrecord⟩ | ⟨line, name, hoccurs, hfault⟩
    · exact hrecord ▸ .of_ok hfree
    · exact hfault ▸ .of_occurs hoccurs
  · rw [← document_eq_iff ha hb, ha.record, hb.record]
    constructor
    · rintro ⟨d, hda, hdb⟩
      rw [Except.ok.inj hda, Except.ok.inj hdb]
    · intro h
      exact ⟨a.document, rfl, by rw [h]⟩

/-- A binding in declaration form of a leaf, with the places of their tokens. -/
def boundNode (value : Value) (line column : Int) : Node :=
  binding 1 ⟨.ident, .text "x", line, column⟩ (leaf 1 ⟨.intLit, value, line, column⟩)

/-- Places of tokens are not recorded, and `1` and a truth value are told apart. A node that is not
recorded has a stray. -/
theorem boundNodes_recorded :
    (∃ d, (boundNode (.int 1) 1 5).record = .ok d ∧ (boundNode (.int 1) 2 7).record = .ok d) ∧
    (¬ ∃ d, (boundNode (.int 1) 1 5).record = .ok d ∧
      (boundNode (.bool true) 1 5).record = .ok d) ∧
    (boundNode (.int 1) 1 5).record = .ok (.record
      [("kind", .value (.text "val")), ("line", .value (.int 1)), ("name", .value (.text "x")),
        ("rhs", .record [("kind", .value (.text "token")), ("line", .value (.int 1)),
          ("token_type", .value (.text "INT")), ("value", .value (.int 1))])]) ∧
    ∃ fault, (unary 1 (stray 1 "StrayNode") .notWord).record = .error fault := by
  have hfree : ∀ value line column, (boundNode value line column).StrayFree := by
    intro value line column
    refine .of_children nofun fun m hm => ?_
    rw [List.mem_singleton.mp hm]
    exact .of_children nofun nofun
  obtain ⟨hall, hsame⟩ := record_by_recursion
  refine ⟨?_, ?_, ?_, ?_⟩
  · refine (hsame _ _ (hfree _ _ _) (hfree _ _ _)).mpr ?_
    exact .binding rfl rfl (.leaf rfl ⟨rfl, rfl⟩)
  · rw [hsame _ _ (hfree _ _ _) (hfree _ _ _)]
    intro h
    cases h with
    | binding _ _ h =>
      cases h with
      | leaf _ htoken => exact absurd htoken.value nofun
  · exact (hall _).2 (hfree _ _ _)
  · exact (hall _).1.fails_iff.mpr ⟨1, "StrayNode", .inside (List.mem_singleton_self _) .self⟩

end Node

end MflFrontend
