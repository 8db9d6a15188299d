import MflFrontend.Proofs.Node.Coinciding
import MflFrontend.Proofs.Node.Descendants
import Mathlib.Data.List.Zip

/-!
# The order of a comparison

A comparison of two trees goes through pairs of corresponding nodes: the roots first, then the
children from the last to the first, each followed by what is below it; below nodes that do not match
it does not look. The first pair at which it can end decides it.
-/

namespace MflFrontend

namespace Node

/-! ## The pairs -/

/-- The pairs of children that are compared below a pair, the last children first. -/
def childPairs (p : Node × Node) : List (Node × Node) :=
  if p.1.Matches p.2 then (p.1.children.zip p.2.children).reverse else []

theorem mem_children_of_mem_childPairs {p q : Node × Node} (h : q ∈ childPairs p) :
    q.1 ∈ p.1.children := by
  unfold childPairs at h
  split at h
  · exact (List.of_mem_zip (List.mem_reverse.mp h)).1
  · cases h

theorem childPairs_swap (p : Node × Node) : childPairs p.swap = (childPairs p).map Prod.swap := by
  unfold childPairs
  by_cases h : p.1.Matches p.2
  · have h' : p.swap.1.Matches p.swap.2 := h.symm
    rw [if_pos h, if_pos h', List.map_reverse, List.zip_swap]
    rfl
  · have h' : ¬ p.swap.1.Matches p.swap.2 := fun h' => h h'.symm
    rw [if_neg h, if_neg h']
    rfl

/-- The pairs that a comparison goes through: the pair itself, and then what it goes through below
it, from the last children to the first. -/
def visits (p : Node × Node) : List (Node × Node) :=
  p :: (childPairs p).attach.flatMap fun q =>
    have := size_lt_of_mem_children (mem_children_of_mem_childPairs q.2)
    visits q.1
termination_by p.1.size

theorem visits_eq (p : Node × Node) : visits p = p :: (childPairs p).flatMap visits := by
  rw [visits]
  simp

theorem visits_of_no_children {p : Node × Node} (h : p.1.children = []) : visits p = [p] := by
  have hnone : childPairs p = [] := by
    unfold childPairs
    rw [h]
    exact ite_self _
  rw [visits_eq, hnone, List.flatMap_nil]

theorem visits_swap (p : Node × Node) : visits p.swap = (visits p).map Prod.swap := by
  induction p using visits.induct with
  | case1 p ih =>
    have hbelow : ∀ q ∈ childPairs p, visits q.swap = (visits q).map Prod.swap :=
      fun q hq => ih ⟨q, hq⟩
    rw [visits_eq, visits_eq p, childPairs_swap, List.map_cons, List.map_flatMap, List.flatMap_map]
    rw [List.flatMap_congr hbelow]

theorem occurs_of_mem_visits {p q : Node × Node} (h : q ∈ visits p) : q.1.Occurs p.1 := by
  induction p using visits.induct with
  | case1 p ih =>
    rw [visits_eq] at h
    rcases List.mem_cons.mp h with rfl | h
    · exact .self
    · obtain ⟨r, hr, hq⟩ := List.mem_flatMap.mp h
      exact .inside (mem_children_of_mem_childPairs hr) (ih ⟨r, hr⟩ hq)

/-! ## Where a comparison ends -/

/-- Both nodes of the pair are of the unknown variant of this name. -/
def StrayPair (name : String) (p : Node × Node) : Prop :=
  p.1.variant = .stray name ∧ p.2.variant = .stray name

/-- How a comparison ends at a pair, if it does. -/
def stop (p : Node × Node) : Option (Except NodeFault Bool) :=
  if p.1.Matches p.2 then
    match p.1.ownKey with
    | .ok _ => none
    | .error fault => some (.error fault)
  else some (.ok false)

theorem stop_of_not_matches {p : Node × Node} (h : ¬ p.1.Matches p.2) :
    stop p = some (.ok false) := if_neg h

theorem stop_of_strayPair {p : Node × Node} {name : String} (h : StrayPair name p) :
    stop p = some (.error (.unknown name)) := by
  have hleft := ownKey_of_stray h.1
  have hmatches : p.1.Matches p.2 :=
    ⟨h.1.trans h.2.symm, hleft.trans (ownKey_of_stray h.2).symm,
      (congrArg List.length (children_of_stray h.1)).trans
        (congrArg List.length (children_of_stray h.2)).symm⟩
  simp only [stop, if_pos hmatches, hleft]

theorem stop_of_matches {p : Node × Node} {key : OwnKey} (h : p.1.Matches p.2)
    (hkey : p.1.ownKey = .ok key) : stop p = none := by
  simp only [stop, if_pos h, hkey]

/-- A pair that does not match ends a comparison, as does a pair of strays; behind any other pair it
goes on. -/
theorem stop_cases (p : Node × Node) :
    (¬ p.1.Matches p.2 ∧ stop p = some (.ok false)) ∨
    (∃ name, StrayPair name p ∧ stop p = some (.error (.unknown name))) ∨
    (p.1.Matches p.2 ∧ (∃ key, p.1.ownKey = .ok key) ∧ stop p = none) := by
  by_cases h : p.1.Matches p.2
  · rcases p.1.ownKey_cases with ⟨key, hkey, -⟩ | ⟨name, -, hname⟩
    · exact .inr (.inr ⟨h, ⟨key, hkey⟩, stop_of_matches h hkey⟩)
    · have hstray : StrayPair name p := ⟨hname, h.1 ▸ hname⟩
      exact .inr (.inl ⟨name, hstray, stop_of_strayPair hstray⟩)
  · exact .inl ⟨h, stop_of_not_matches h⟩

theorem stop_swap (p : Node × Node) : stop p.swap = stop p := by
  rcases stop_cases p with ⟨h, hstop⟩ | ⟨name, h, hstop⟩ | ⟨h, ⟨key, hkey⟩, hstop⟩
  · rw [hstop]
    exact stop_of_not_matches fun h' => h h'.symm
  · rw [hstop]
    exact stop_of_strayPair h.symm
  · rw [hstop]
    exact stop_of_matches h.symm (h.2.1 ▸ hkey)

theorem stop_ne_true (p : Node × Node) : stop p ≠ some (.ok true) := by
  rcases stop_cases p with ⟨-, hstop⟩ | ⟨name, -, hstop⟩ | ⟨-, -, hstop⟩ <;>
    · rw [hstop]
      nofun

/-- A comparison of pairs ends as the first of the pairs it goes through at which it can. -/
theorem agreePairs_eq (pairs : List (Node × Node)) :
    agreePairs pairs = ((pairs.flatMap visits).findSome? stop).getD (.ok true) := by
  have hhead : ∀ {p : Node × Node} {pending : List (Node × Node)} {r : Except NodeFault Bool},
      stop p = some r → r = (((p :: pending).flatMap visits).findSome? stop).getD (.ok true) := by
    intro p pending r hr
    rw [List.flatMap_cons, visits_eq, List.cons_append, List.findSome?_cons, hr]
    rfl
  fun_induction agreePairs pairs with
  | case1 => rfl
  | case2 a b pending hvariant => exact hhead (stop_of_not_matches fun h => hvariant h.1)
  | case3 a b pending hvariant fault hleft =>
    have hvariant : a.variant = b.variant := not_not.mp hvariant
    rcases a.ownKey_cases with ⟨key, hkey, -⟩ | ⟨name, hkey, hname⟩
    · rw [hkey] at hleft
      cases hleft
    · rw [hkey] at hleft
      injection hleft with hleft
      exact hleft ▸ hhead (stop_of_strayPair ⟨hname, hvariant ▸ hname⟩)
  | case4 a b pending hvariant left fault hright hleft =>
    have hvariant : a.variant = b.variant := not_not.mp hvariant
    rcases b.ownKey_cases with ⟨key, hkey, -⟩ | ⟨name, -, hname⟩
    · rw [hkey] at hright
      cases hright
    · rw [ownKey_of_stray (hvariant.trans hname)] at hleft
      cases hleft
  | case5 a b pending hvariant left right hright hleft hdiffer =>
    refine hhead (stop_of_not_matches fun h => ?_)
    have hkeys : left = right := by
      have hown := h.2.1
      rw [hleft, hright] at hown
      exact Except.ok.inj hown
    rcases hdiffer with hdiffer | hdiffer
    · exact hdiffer hkeys
    · exact hdiffer h.2.2
  | case6 a b pending hvariant left right hright hleft hsame ih =>
    have hvariant : a.variant = b.variant := not_not.mp hvariant
    obtain ⟨hkeys, hlength⟩ := not_or.mp hsame
    have hmatches : a.Matches b :=
      ⟨hvariant, by rw [hleft, hright, not_not.mp hkeys], not_not.mp hlength⟩
    have hchildren : childPairs (a, b) = (a.children.zip b.children).reverse := if_pos hmatches
    rw [ih, List.flatMap_cons, visits_eq, hchildren, List.cons_append, List.findSome?_cons,
      stop_of_matches hmatches hleft, List.flatMap_append]

/-- A comparison of two trees ends as the first of the pairs it goes through at which it can. -/
theorem agrees_eq (a b : Node) :
    a.agrees b = ((visits (a, b)).findSome? stop).getD (.ok true) := by
  rw [agrees, agreePairs_eq, List.flatMap_cons, List.flatMap_nil, List.append_nil]

theorem agrees_comm (a b : Node) : a.agrees b = b.agrees a := by
  have hswap : visits (b, a) = (visits (a, b)).map Prod.swap := visits_swap (a, b)
  have hstop : stop ∘ Prod.swap = stop := funext stop_swap
  rw [agrees_eq, agrees_eq b, hswap, List.findSome?_map, hstop]

theorem stop_of_passed {q : Node × Node} (h : q.1.Matches q.2 ∧ ∀ name, ¬ StrayPair name q) :
    stop q = none := by
  rcases stop_cases q with ⟨hnot, -⟩ | ⟨name, hname, -⟩ | ⟨-, -, hstop⟩
  · exact absurd h.1 hnot
  · exact absurd hname (h.2 name)
  · exact hstop

/-- Behind pairs none of which is a pair of strays, a comparison can only have ended in a
difference. -/
theorem findSome?_stop_of_no_strays {pairs : List (Node × Node)}
    (h : ∀ p ∈ pairs, ∀ name, ¬ StrayPair name p) :
    pairs.findSome? stop = none ∨ pairs.findSome? stop = some (.ok false) := by
  cases hfind : pairs.findSome? stop with
  | none => exact .inl rfl
  | some r =>
    obtain ⟨p, hp, hr⟩ := List.exists_of_findSome?_eq_some hfind
    rcases stop_cases p with ⟨-, hstop⟩ | ⟨name, hname, -⟩ | ⟨-, -, hstop⟩
    · exact .inr (by rw [← hr, hstop])
    · exact absurd hname (h p hp name)
    · rw [hstop] at hr
      cases hr

/-- Trees coincide if a comparison of them goes on at every pair. -/
theorem coincides_iff_visits (p : Node × Node) :
    Coincides p.1 p.2 ↔ ∀ q ∈ visits p, stop q = none := by
  induction p using visits.induct with
  | case1 p ih =>
    rw [visits_eq, List.forall_mem_cons]
    constructor
    · intro h
      obtain ⟨hmatches, ⟨key, hkey⟩, hchildren⟩ := coincides_iff.mp h
      refine ⟨stop_of_matches hmatches hkey, fun r hr => ?_⟩
      obtain ⟨q, hq, hr⟩ := List.mem_flatMap.mp hr
      have hzip : q ∈ p.1.children.zip p.2.children := by
        rw [childPairs, if_pos hmatches] at hq
        exact List.mem_reverse.mp hq
      exact (ih ⟨q, hq⟩).mp (List.forall₂_zip hchildren hzip) r hr
    · rintro ⟨hroot, hbelow⟩
      rcases stop_cases p with ⟨-, hstop⟩ | ⟨name, -, hstop⟩ | ⟨hmatches, hkey, -⟩
      · rw [hroot] at hstop
        cases hstop
      · rw [hroot] at hstop
        cases hstop
      · refine coincides_iff.mpr ⟨hmatches, hkey, List.forall₂_iff_zip.mpr ⟨hmatches.2.2, ?_⟩⟩
        intro m n hzip
        have hq : (m, n) ∈ childPairs p := by
          rw [childPairs, if_pos hmatches]
          exact List.mem_reverse.mpr hzip
        exact (ih ⟨(m, n), hq⟩).mpr fun r hr => hbelow r (List.mem_flatMap.mpr ⟨_, hq, hr⟩)

theorem agrees_eq_true_iff {a b : Node} : a.agrees b = .ok true ↔ Coincides a b := by
  rw [coincides_iff_visits (a, b), agrees_eq, ← List.findSome?_eq_none_iff]
  cases hfind : (visits (a, b)).findSome? stop with
  | none => exact iff_of_true rfl rfl
  | some r =>
    refine iff_of_false (fun hr => ?_) nofun
    obtain ⟨q, -, hq⟩ := List.exists_of_findSome?_eq_some hfind
    have hr : r = .ok true := hr
    exact stop_ne_true q (hr ▸ hq)

/-! ## Comparing two trees -/

/-- The comparison of two trees ends as the pairs it goes through say. -/
structure ComparesInOrder (a b : Node) : Prop where
  /-- A pair that does not match, with no strays before it, is a difference. -/
  of_difference : ∀ before p after, visits (a, b) = before ++ p :: after →
    (∀ q ∈ before, ∀ name, ¬ StrayPair name q) → ¬ p.1.Matches p.2 → a.agrees b = .ok false
  /-- A pair of strays, with nothing but matching nodes before it, is a fault. -/
  of_strays : ∀ before p after name, visits (a, b) = before ++ p :: after →
    (∀ q ∈ before, q.1.Matches q.2 ∧ ∀ name, ¬ StrayPair name q) → StrayPair name p →
    ∃ fault, a.agrees b = .error fault ∧ fault.message = "Unknown syntax node type: " ++ name
  /-- If all pairs match and none is of strays, the trees agree. -/
  of_neither : (∀ q ∈ visits (a, b), q.1.Matches q.2 ∧ ∀ name, ¬ StrayPair name q) →
    a.agrees b = .ok true
  /-- The trees that agree are those that are the same up to lines. -/
  coincides : a.agrees b = .ok true ↔ Coincides a b
  /-- A tree without strays differs from those that it does not agree with. -/
  of_strayFree : a.StrayFree → ¬ Coincides a b → a.agrees b = .ok false
  /-- It does not matter which tree is on which side. -/
  comm : a.agrees b = b.agrees a

/-- Any two trees are compared in this order, with strays in them or without. -/
theorem agrees_in_order (a b : Node) : ComparesInOrder a b := by
  constructor
  case of_difference =>
    intro before p after hvisits hbefore hp
    rw [agrees_eq, hvisits, List.findSome?_append, List.findSome?_cons, stop_of_not_matches hp]
    rcases findSome?_stop_of_no_strays hbefore with h | h
    · rw [h]
      rfl
    · rw [h]
      rfl
  case of_strays =>
    intro before p after name hvisits hbefore hp
    have hnone : before.findSome? stop = none :=
      List.findSome?_eq_none_iff.mpr fun q hq => stop_of_passed (hbefore q hq)
    refine ⟨.unknown name, ?_, rfl⟩
    rw [agrees_eq, hvisits, List.findSome?_append, hnone, List.findSome?_cons,
      stop_of_strayPair hp]
    rfl
  case of_neither =>
    intro h
    have hnone : (visits (a, b)).findSome? stop = none :=
      List.findSome?_eq_none_iff.mpr fun q hq => stop_of_passed (h q hq)
    rw [agrees_eq, hnone]
    rfl
  case coincides => exact agrees_eq_true_iff
  case of_strayFree =>
    intro ha hdiffer
    have hstrays : ∀ q ∈ visits (a, b), ∀ name, ¬ StrayPair name q :=
      fun q hq name hname => ha q.1 (occurs_of_mem_visits hq) name hname.1
    rcases findSome?_stop_of_no_strays hstrays with h | h
    · refine absurd (agrees_eq_true_iff.mp ?_) hdiffer
      rw [agrees_eq, h]
      rfl
    · rw [agrees_eq, h]
      rfl
  case comm => exact agrees_comm a b

/-- The leaf of a name on the first line. -/
def nameNode (name : String) : Node := .leaf 1 ⟨.ident, .text name, 1, 1⟩

/-- A node of an unknown variant. -/
def strayNode : Node := .stray 1 "StrayNode"

/-- Behind a pair of strays a difference is not looked at, and before one it decides. Leaves of `1`
and of a truth value on two lines agree. -/
theorem nameNodes_in_order :
    (∃ fault, (binary 1 (nameNode "x") strayNode .plus).agrees
        (binary 1 (nameNode "y") strayNode .plus) = .error fault ∧
      fault.message = "Unknown syntax node type: StrayNode") ∧
    (binary 1 strayNode (nameNode "x") .plus).agrees
      (binary 1 strayNode (nameNode "y") .plus) = .ok false ∧
    (leaf 1 ⟨.intLit, .int 1, 1, 1⟩).agrees (leaf 2 ⟨.intLit, .bool true, 1, 1⟩) = .ok true := by
  have hroot : ∀ left right left' right' : Node,
      (binary 1 left right .plus).Matches (binary 1 left' right' .plus) ∧
        ∀ name, ¬ StrayPair name (binary 1 left right .plus, binary 1 left' right' .plus) :=
    fun _ _ _ _ => ⟨⟨rfl, rfl, rfl⟩, fun _ h => nomatch h.1⟩
  have hvisits : ∀ left right left' right' : Node, left.children = [] → right.children = [] →
      visits (binary 1 left right .plus, binary 1 left' right' .plus) =
        [(binary 1 left right .plus, binary 1 left' right' .plus)] ++
          (right, right') :: [(left, left')] := by
    intro left right left' right' hleft hright
    have hpairs : childPairs (binary 1 left right .plus, binary 1 left' right' .plus) =
        [(right, right'), (left, left')] := if_pos (hroot _ _ _ _).1
    rw [visits_eq, hpairs, List.flatMap_cons, List.flatMap_cons, List.flatMap_nil,
      visits_of_no_children hright, visits_of_no_children hleft]
    rfl
  have hnames : ¬ (nameNode "x").Matches (nameNode "y") := by decide
  refine ⟨?_, ?_, ?_⟩
  · refine (agrees_in_order _ _).of_strays _ _ _ "StrayNode" (hvisits _ _ _ _ rfl rfl) ?_ ⟨rfl, rfl⟩
    rintro q hq
    cases List.mem_singleton.mp hq
    exact hroot _ _ _ _
  · refine (agrees_in_order _ _).of_difference _ _ _ (hvisits _ _ _ _ rfl rfl) ?_ hnames
    rintro q hq
    cases List.mem_singleton.mp hq
    exact (hroot _ _ _ _).2
  · exact (agrees_in_order _ _).coincides.mpr (.leaf (by decide +kernel))

end Node

end MflFrontend
