import MflFrontend.Proofs.Node.Visits

/-!
# The entries of a tree

A tree without strays has a list of entries, one for each of its nodes. As an entry says how many
children follow, the list can be read back in one way only: lists of trees with the same entries
coincide tree by tree. So comparing trees is comparing their entries, and is an equivalence.
-/

namespace MflFrontend

/-- The variants that are known have names of their own. -/
theorem Variant.eq_of_name {v w : Variant} (hv : ∀ name, v ≠ .stray name)
    (hw : ∀ name, w ≠ .stray name) (h : v.name = w.name) : v = w := by
  cases v <;> cases w
  all_goals first
    | rfl
    | exact absurd rfl (hv _)
    | exact absurd rfl (hw _)
    | simp [name] at h

namespace Node

/-! ## Writing entries -/

theorem entriesOf_cons {n : Node} {key : OwnKey} (hkey : n.ownKey = .ok key)
    (pending : List Node) : entriesOf (n :: pending) =
      (entriesOf (n.children.reverse ++ pending)).map
        (⟨n.variant, key, n.children.length⟩ :: ·) := by
  rw [entriesOf]
  simp only [hkey]

/-- Trees without strays have entries. -/
theorem exists_entriesOf {ns : List Node} (h : ∀ n ∈ ns, n.StrayFree) :
    ∃ es, entriesOf ns = .ok es := by
  fun_induction entriesOf ns with
  | case1 => exact ⟨[], rfl⟩
  | case2 n pending fault hfault =>
    obtain ⟨key, hkey⟩ := (h n List.mem_cons_self).exists_ownKey
    rw [hkey] at hfault
    cases hfault
  | case3 n pending key hkey ih =>
    have hn : n.StrayFree := h n List.mem_cons_self
    have hbelow : ∀ m ∈ n.children.reverse ++ pending, m.StrayFree := by
      intro m hm
      rcases List.mem_append.mp hm with hm | hm
      · exact hn.child (List.mem_reverse.mp hm)
      · exact h m (List.mem_cons_of_mem n hm)
    obtain ⟨es, hes⟩ := ih hbelow
    exact ⟨_, by rw [hes]; rfl⟩

/-- Trees that coincide have the same entries. -/
theorem entriesOf_eq_of_coincides {ms ns : List Node} (h : List.Forall₂ Coincides ms ns) :
    entriesOf ms = entriesOf ns := by
  fun_induction entriesOf ms generalizing ns with
  | case1 =>
    cases h
    rw [entriesOf]
  | case2 m pending fault hfault =>
    cases h with
    | cons hm _ =>
      obtain ⟨-, ⟨key, hkey⟩, -⟩ := hm.parts
      rw [hkey] at hfault
      cases hfault
  | case3 m pending key hkey ih =>
    cases h with
    | @cons _ n _ pending' hm hpending =>
      obtain ⟨⟨hvariant, hown, hlength⟩, -, hchildren⟩ := hm.parts
      have hrest := ih (List.rel_append (List.forall₂_reverse_iff.mpr hchildren) hpending)
      rw [entriesOf_cons (hown ▸ hkey), hrest, hvariant, hlength]

/-! ## Reading entries back -/

/-- Entries are of no nodes, or the first is of the first node and the others are of its children
and of the nodes behind it. -/
theorem entriesOf_eq_ok {ns : List Node} {es : List HashEntry} (h : entriesOf ns = .ok es) :
    (ns = [] ∧ es = []) ∨ ∃ n pending key rest, ns = n :: pending ∧
      es = ⟨n.variant, key, n.children.length⟩ :: rest ∧ n.ownKey = .ok key ∧
      entriesOf (n.children.reverse ++ pending) = .ok rest := by
  cases ns with
  | nil =>
    rw [entriesOf] at h
    cases h
    exact .inl ⟨rfl, rfl⟩
  | cons n pending =>
    refine .inr ?_
    cases hkey : n.ownKey with
    | error fault =>
      rw [entriesOf] at h
      simp only [hkey] at h
      cases h
    | ok key =>
      rw [entriesOf_cons hkey] at h
      cases hrest : entriesOf (n.children.reverse ++ pending) with
      | error fault =>
        rw [hrest] at h
        cases h
      | ok rest =>
        rw [hrest] at h
        cases h
        exact ⟨n, pending, key, rest, rfl, rfl, hkey, hrest⟩

/-- No entry is of a stray. -/
theorem variant_of_mem_entries {ns : List Node} {es : List HashEntry} (h : entriesOf ns = .ok es) :
    ∀ e ∈ es, ∀ name, e.variant ≠ .stray name := by
  induction es generalizing ns with
  | nil =>
    intro e he
    cases he
  | cons e es ih =>
    rcases entriesOf_eq_ok h with ⟨-, hnil⟩ | ⟨n, pending, key, rest, rfl, hes, hkey, hrest⟩
    · cases hnil
    · cases hes
      refine List.forall_mem_cons.mpr ⟨?_, ih hrest⟩
      rcases n.ownKey_cases with ⟨-, -, hvariant⟩ | ⟨name, hstray, -⟩
      · exact hvariant
      · rw [hkey] at hstray
        cases hstray

/-- Trees with the same entries coincide. The first entries say that the first nodes match, so their
children and the nodes behind them are told apart by the number of the children. -/
theorem coincide_of_entriesOf {ms ns : List Node} {es : List HashEntry}
    (hms : entriesOf ms = .ok es) (hns : entriesOf ns = .ok es) : List.Forall₂ Coincides ms ns := by
  induction es generalizing ms ns with
  | nil =>
    rcases entriesOf_eq_ok hms with ⟨rfl, -⟩ | ⟨m, ms, key, rest, -, hes, -, -⟩
    · rcases entriesOf_eq_ok hns with ⟨rfl, -⟩ | ⟨n, ns, key, rest, -, hes, -, -⟩
      · exact .nil
      · cases hes
    · cases hes
  | cons e es ih =>
    rcases entriesOf_eq_ok hms with ⟨-, hnil⟩ | ⟨m, ms', key, rest, rfl, hes, hm, hmrest⟩
    · cases hnil
    rcases entriesOf_eq_ok hns with ⟨-, hnil⟩ | ⟨n, ns', key', rest', rfl, hes', hn, hnrest⟩
    · cases hnil
    cases hes
    injection hes' with hentry hrest
    injection hentry with hvariant hkeys harity
    have hmatches : m.Matches n := ⟨hvariant, by rw [hm, hn, hkeys], harity⟩
    have hall : List.Forall₂ Coincides (m.children.reverse ++ ms') (n.children.reverse ++ ns') :=
      ih hmrest (hrest ▸ hnrest)
    have hlength : m.children.reverse.length = n.children.reverse.length := by simpa using harity
    have hchildren := List.forall₂_take m.children.reverse.length hall
    have hbehind := List.forall₂_drop m.children.reverse.length hall
    rw [List.take_left, hlength, List.take_left] at hchildren
    rw [List.drop_left, hlength, List.drop_left] at hbehind
    exact .cons (coincides_of_parts hmatches hm (List.forall₂_reverse_iff.mp hchildren)) hbehind

/-! ## Entries and agreement -/

/-- The entries show the same: the name of the variant, the own fields and the number of children. -/
def HashEntry.ShowsSame (e f : HashEntry) : Prop :=
  e.variant.name = f.variant.name ∧ e.own = f.own ∧ e.arity = f.arity

/-- Entries that show the same are the same. -/
theorem entries_eq_of_showsSame {ms ns : List Node} {es fs : List HashEntry}
    (hms : entriesOf ms = .ok es) (hns : entriesOf ns = .ok fs)
    (h : List.Forall₂ HashEntry.ShowsSame es fs) : es = fs := by
  have hes := variant_of_mem_entries hms
  have hfs := variant_of_mem_entries hns
  clear hms hns
  induction h with
  | nil => rfl
  | @cons e f es fs hef _ ih =>
    obtain ⟨he, hes⟩ := List.forall_mem_cons.mp hes
    obtain ⟨hf, hfs⟩ := List.forall_mem_cons.mp hfs
    obtain ⟨hname, hown, harity⟩ := hef
    have hvariant : e.variant = f.variant := Variant.eq_of_name he hf hname
    have hhead : e = f := by
      cases e
      cases f
      cases hvariant
      cases hown
      cases harity
      rfl
    rw [hhead, ih hes hfs]

section

variable {a b : Node}

/-- A tree without strays agrees with those that have the same entries, and with no others. -/
theorem agrees_iff_hashEntries (ha : a.StrayFree) :
    a.agrees b = .ok true ↔ a.hashEntries = b.hashEntries := by
  rw [agrees_eq_true_iff]
  constructor
  · intro h
    exact entriesOf_eq_of_coincides (.cons h .nil)
  · intro h
    obtain ⟨es, hes⟩ := exists_entriesOf (List.forall_mem_singleton.mpr ha)
    have hes' : b.hashEntries = .ok es := h.symm.trans hes
    cases coincide_of_entriesOf hes hes' with
    | cons h _ => exact h

/-- Trees that agree have the same entries, so they are one in a set. -/
theorem distinct_of_agrees (ha : a.StrayFree) (h : a.agrees b = .ok true) :
    a.distinct b = .ok 1 := by
  obtain ⟨es, hes⟩ := exists_entriesOf (List.forall_mem_singleton.mpr ha)
  have hleft : a.hashEntries = .ok es := hes
  have hright : b.hashEntries = .ok es := ((agrees_iff_hashEntries ha).mp h).symm.trans hes
  have hsame : ¬ es ≠ es := not_not.mpr rfl
  simp only [distinct, hleft, hright, h, bind, Except.bind, if_neg hsame]
  rfl

end

/-- Trees without strays are told apart by their entries: two agree if and only if their entries show
the same one by one, a set of two that agree has one tree, and agreement is an equivalence. -/
theorem agreement_by_entries :
    (∀ a b : Node, a.StrayFree → b.StrayFree → ∃ es fs, a.hashEntries = .ok es ∧
      b.hashEntries = .ok fs ∧ (a.agrees b = .ok true ↔ List.Forall₂ HashEntry.ShowsSame es fs) ∧
      (a.agrees b = .ok true → a.distinct b = .ok 1)) ∧
    Equivalence fun a b : {n : Node // n.StrayFree} => a.1.agrees b.1 = .ok true := by
  constructor
  · intro a b ha hb
    obtain ⟨es, hes⟩ := exists_entriesOf (List.forall_mem_singleton.mpr ha)
    obtain ⟨fs, hfs⟩ := exists_entriesOf (List.forall_mem_singleton.mpr hb)
    have hleft : a.hashEntries = .ok es := hes
    have hright : b.hashEntries = .ok fs := hfs
    refine ⟨es, fs, hleft, hright, ?_, distinct_of_agrees ha⟩
    rw [agrees_iff_hashEntries ha, hleft, hright]
    constructor
    · intro h
      injection h with h
      exact h ▸ List.forall₂_same.mpr fun e _ => ⟨rfl, rfl, rfl⟩
    · intro h
      rw [entries_eq_of_showsSame hes hfs h]
  · constructor
    · intro a
      exact (agrees_iff_hashEntries a.2).mpr rfl
    · intro a b hab
      exact (agrees_iff_hashEntries b.2).mpr ((agrees_iff_hashEntries a.2).mp hab).symm
    · intro a b c hab hbc
      exact (agrees_iff_hashEntries a.2).mpr
        (((agrees_iff_hashEntries a.2).mp hab).trans ((agrees_iff_hashEntries b.2).mp hbc))

/-- The leaf of a value that claims to be a whole number. -/
def numberNode (line : Int) (v : Value) : Node := .leaf line ⟨.intLit, v, 1, 1⟩

theorem numberNode_coincides {k l : Int} {v w : Value} (h : v.key = w.key) :
    Coincides (numberNode k v) (numberNode l w) :=
  .leaf (by rw [Token.key, Token.key, h])

/-- Leaves of `1`, of `1.0` and of `true` are one in a set, whatever their lines; and the leaf of `1`
agrees with the leaf of `true` because both agree with the leaf of `1.0`. -/
theorem numberNodes_by_entries :
    (numberNode 1 (.int 1)).distinct (numberNode 2 (.real (Double.nearest 1 1))) = .ok 1 ∧
    (numberNode 2 (.real (Double.nearest 1 1))).distinct (numberNode 3 (.bool true)) = .ok 1 ∧
    (numberNode 1 (.int 1)).agrees (numberNode 3 (.bool true)) = .ok true := by
  have hfree : ∀ line v, (numberNode line v).StrayFree := fun _ _ => .of_children nofun nofun
  have hint : (Value.int 1).key = (Value.real (Double.nearest 1 1)).key := by decide +kernel
  have hbool : (Value.real (Double.nearest 1 1)).key = (Value.bool true).key := by decide +kernel
  generalize Double.nearest 1 1 = one at hint hbool ⊢
  obtain ⟨hentries, hequivalence⟩ := agreement_by_entries
  have hfirst : (numberNode 1 (.int 1)).agrees (numberNode 2 (.real one)) = .ok true :=
    agrees_eq_true_iff.mpr (numberNode_coincides hint)
  have hsecond : (numberNode 2 (.real one)).agrees (numberNode 3 (.bool true)) = .ok true :=
    agrees_eq_true_iff.mpr (numberNode_coincides hbool)
  refine ⟨?_, ?_, ?_⟩
  · obtain ⟨es, fs, -, -, -, hset⟩ := hentries _ _ (hfree 1 _) (hfree 2 _)
    exact hset hfirst
  · obtain ⟨es, fs, -, -, -, hset⟩ := hentries _ _ (hfree 2 _) (hfree 3 _)
    exact hset hsecond
  · exact hequivalence.trans (x := ⟨_, hfree 1 _⟩) (y := ⟨_, hfree 2 _⟩) (z := ⟨_, hfree 3 _⟩)
      hfirst hsecond

end Node

end MflFrontend
