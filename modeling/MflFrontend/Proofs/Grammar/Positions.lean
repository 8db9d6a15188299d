import MflFrontend.Proofs.Grammar.Interleaving
import MflFrontend.Proofs.Lexing.Gaps
import MflFrontend.Proofs.Node.Order

/-!
# Trees keep the order of their text

The tokens of a text stand one behind the other, so their places increase. Read in the order in
which they are written, the nodes of a tree are placed by some of these tokens, in the order of
these: each phrase by tokens of its own, an operator by the token that stands between its operands.
So the lines of the nodes never decrease, and the tokens of the leaves stand at increasing places.
-/

namespace MflFrontend

/-! ## Places in their order -/

/-- The first place is on an earlier line than the second, or before it on the same line. -/
def Location.Before (a b : Location) : Prop := a.line < b.line ∨ a.line = b.line ∧ a.column < b.column

namespace Location

variable {a b c : Location}

theorem Before.trans (h : a.Before b) (h' : b.Before c) : a.Before c := by
  unfold Before at *
  omega

theorem Before.line_le (h : a.Before b) : a.line ≤ b.line := by
  unfold Before at h
  omega

theorem before_after (a : Location) (c : Char) : a.Before (a.after c) := by
  unfold after
  split
  · exact .inl (Int.lt_add_one_iff.mpr (Int.le_refl _))
  · exact .inr ⟨rfl, Int.lt_add_one_iff.mpr (Int.le_refl _)⟩

/-- Every character moves a place on. -/
theorem before_afterAll (a : Location) {cs : List Char} (h : cs ≠ []) : a.Before (a.afterAll cs) := by
  induction cs generalizing a with
  | nil => exact absurd rfl h
  | cons c cs ih =>
    rw [afterAll_cons]
    by_cases hcs : cs = []
    · rw [hcs, afterAll_nil]
      exact a.before_after c
    · exact (a.before_after c).trans (ih _ hcs)

end Location

/-- The place of a token. -/
def Token.place (t : Token) : Location := ⟨t.line, t.column⟩

/-- The first token starts before the second. -/
def Token.Before (t u : Token) : Prop := t.place.Before u.place

theorem locationAt_before (before : List Char) {cs : List Char} (h : cs ≠ []) :
    (locationAt before).Before (locationAt (before ++ cs)) := by
  rw [← locationAt_afterAll]
  exact (locationAt before).before_afterAll h

theorem one_le_lineAt (before : List Char) : 1 ≤ lineAt before := by
  unfold lineAt
  omega

theorem lineAt_le_append (before cs : List Char) : lineAt before ≤ lineAt (before ++ cs) := by
  unfold lineAt
  rw [List.count_append]
  omega

/-! ## Tokens -/

/-- The tokens of factors start one before the other, each behind a front part of the text. -/
theorem Factors.places {text last : List Char} {fs : List Factor} (h : Factors text fs last)
    {before : List Char} {ts : List Token} (hts : TokensOf before fs last ts) :
    ts.Pairwise Token.Before ∧
    ∀ t ∈ ts, ∃ front rest, text = front ++ rest ∧ t.place = locationAt (before ++ front) := by
  induction h generalizing before ts with
  | @nil text =>
    cases hts with
    | nil =>
      refine ⟨List.pairwise_singleton _ _, fun t ht => ?_⟩
      rw [List.mem_singleton.mp ht]
      exact ⟨text, [], (List.append_nil _).symm, rfl⟩
  | @cons gap l rest last fs hgap hl hsep _ ih =>
    cases hts with
    | @cons _ _ _ _ _ kind value ts hdenotes hts =>
      obtain ⟨hpairs, hplaces⟩ := ih hts
      have hbehind : ∀ t ∈ ts, ∃ front rest', rest = front ++ rest' ∧
          t.place = locationAt (before ++ gap ++ (l ++ front)) := by
        intro t ht
        obtain ⟨front, rest', hrest, hplace⟩ := hplaces t ht
        exact ⟨front, rest', hrest, by rw [hplace, List.append_assoc]⟩
      refine ⟨List.pairwise_cons.mpr ⟨fun t ht => ?_, hpairs⟩, fun t ht => ?_⟩
      · obtain ⟨front, -, -, hplace⟩ := hbehind t ht
        have hne : l ++ front ≠ [] := List.append_ne_nil_of_left_ne_nil hl.ne_nil front
        rw [Token.Before, hplace]
        exact locationAt_before (before ++ gap) hne
      · rcases List.mem_cons.mp ht with rfl | ht
        · exact ⟨gap, l ++ rest, rfl, rfl⟩
        · obtain ⟨front, rest', hrest, hplace⟩ := hbehind t ht
          refine ⟨gap ++ (l ++ front), rest', ?_, ?_⟩
          · rw [hrest]
            simp
          · rw [hplace]
            simp

/-- The tokens of a text start one before the other, and all on lines of the text. -/
theorem tokenize_places {text : String} {ts : List Token} (h : tokenize text = .ok ts) :
    ts.Pairwise Token.Before ∧ ∀ t ∈ ts, 1 ≤ t.line ∧ t.line ≤ lineAt text.toList := by
  obtain ⟨fs, last, hfs, -, -, hts⟩ := factors_of_tokenize h
  obtain ⟨hpairs, hplaces⟩ := hfs.places hts
  refine ⟨hpairs, fun t ht => ?_⟩
  obtain ⟨front, rest, htext, hplace⟩ := hplaces t ht
  have hline : t.line = lineAt front := congrArg Location.line hplace
  rw [hline, htext]
  exact ⟨one_le_lineAt front, lineAt_le_append front rest⟩

/-! ## Nodes -/

/-- The node is on the line of the token, and if it is a leaf it is the leaf of this token. -/
structure Node.PlacedBy (n : Node) (t : Token) : Prop where
  line : n.line = t.line
  leaf : ∀ u, n.leafToken? = some u → u = t

/-- The nodes are placed by some of the tokens, in the order of these. -/
abbrev PlacedAmong (ns : List Node) (w : List Token) : Prop :=
  List.SublistForall₂ Node.PlacedBy ns w

namespace PlacedAmong

variable {ms ns : List Node} {v w : List Token}

theorem widen (h : PlacedAmong ns v) (hvw : v.Sublist w) : PlacedAmong ns w := by
  obtain ⟨us, hns, hus⟩ := List.sublistForall₂_iff.mp h
  exact List.sublistForall₂_iff.mpr ⟨us, hns, hus.trans hvw⟩

theorem append (h : PlacedAmong ms v) (h' : PlacedAmong ns w) : PlacedAmong (ms ++ ns) (v ++ w) := by
  obtain ⟨ts, hms, hts⟩ := List.sublistForall₂_iff.mp h
  obtain ⟨us, hns, hus⟩ := List.sublistForall₂_iff.mp h'
  exact List.sublistForall₂_iff.mpr ⟨ts ++ us, List.rel_append hms hns, hts.append hus⟩

/-- A node that is no leaf may be placed by any token on its line. -/
theorem inner {n : Node} {t : Token} (hline : n.line = t.line) (hinner : n.leafToken? = none)
    (h : PlacedAmong ns w) : PlacedAmong (n :: ns) (t :: w) :=
  .cons ⟨hline, fun u hu => by rw [hinner] at hu; cases hu⟩ h

theorem leaf (t : Token) (h : PlacedAmong ns w) : PlacedAmong (.leaf t.line t :: ns) (t :: w) :=
  .cons ⟨rfl, fun _ hu => (Option.some.inj hu).symm⟩ h

end PlacedAmong

theorem Tier.ne_assign_of_mem {t : Tier} {k : TokenKind} (h : k ∈ t.operators) : k ≠ .assign := by
  rintro rfl
  revert h
  cases t <;> decide

/-- The nodes of a phrase are placed by tokens of the phrase. -/
theorem Derives.placedAmong {p : Phrase} {w : List Token} {n : Node} (h : Derives p w n) :
    PlacedAmong n.inOrder w := by
  induction h with
  | @literal t _ =>
    rw [Node.inOrder]
    exact .leaf t .nil
  | @parenthesis o c w n _ _ _ ih =>
    exact ih.widen ((List.sublist_append_left w [c]).cons o)
  | plain _ ih => exact ih
  | negated _ _ ih =>
    rw [Node.inOrder]
    exact .inner rfl rfl ih
  | single _ ih => exact ih
  | joined _ hop _ ihv ihw =>
    rw [Node.inOrder, if_neg (Tier.ne_assign_of_mem hop)]
    exact ihv.append (.inner rfl rfl ihw)
  | uncompared _ ih => exact ih
  | compared _ _ _ ihv ihw =>
    rw [Node.inOrder]
    exact ihv.append (.inner rfl rfl ihw)
  | bare _ ih => exact ih
  | @binding k x a w n _ _ _ _ ih =>
    rw [Node.inOrder, if_pos rfl, Node.inOrder]
    exact .inner rfl rfl (.leaf x (ih.widen (List.sublist_cons_self a w)))

theorem DerivesAll.placedAmong {w : List Token} {ns : List Node} (h : DerivesAll w ns) :
    PlacedAmong (Node.inOrderAll ns) w := by
  induction h with
  | nil => exact .nil
  | @cons s v w n ns hv _ _ ih =>
    rw [Node.inOrderAll]
    exact hv.placedAmong.append (ih.widen (List.sublist_cons_self s w))

theorem sublist_leafTokens {ns : List Node} {us : List Token}
    (h : List.Forall₂ Node.PlacedBy ns us) : (ns.filterMap Node.leafToken?).Sublist us := by
  induction h with
  | nil => exact .slnil
  | @cons n t ns us hn _ ih =>
    cases hleaf : n.leafToken? with
    | none =>
      rw [List.filterMap_cons_none hleaf]
      exact ih.cons t
    | some u =>
      rw [List.filterMap_cons_some hleaf, hn.leaf u hleaf]
      exact ih.cons_cons t

theorem map_line_eq {ns : List Node} {us : List Token} (h : List.Forall₂ Node.PlacedBy ns us) :
    ns.map Node.line = us.map Token.line := by
  induction h with
  | nil => rfl
  | cons hn _ ih => rw [List.map_cons, List.map_cons, hn.line, ih]

/-- The nodes of a program are its root, on the line of the first token, and nodes that are placed by
some of the tokens. -/
theorem DerivesProgram.placed {w : List Token} {tree : SyntaxTree} (h : DerivesProgram w tree) :
    ∃ first rest ns us, w = first :: rest ∧ tree.root.line = first.line ∧
      tree.root.leafToken? = none ∧ tree.root.inOrder = tree.root :: ns ∧ us.Sublist w ∧
      List.Forall₂ Node.PlacedBy ns us := by
  obtain ⟨first, ns, hfirst, -, hall, rfl⟩ := h
  obtain ⟨rest, hw⟩ := List.head?_eq_some_iff.mp hfirst
  obtain ⟨us, hplaced, hus⟩ := List.sublistForall₂_iff.mp hall.placedAmong
  exact ⟨first, rest, Node.inOrderAll ns, us, hw, rfl, rfl, by rw [Node.inOrder], hus, hplaced⟩

/-- The leaves of a tree that is read from a text hold tokens that start one before the other; the
lines of its nodes never decrease in the order in which these are written, and are lines of the text;
and a leaf is on the line of its token. -/
theorem parseText_places (room : Nat) (text : String) (tree : SyntaxTree)
    (h : (parseText room text).outcome = .ok tree) :
    tree.root.leafTokens.Pairwise Token.Before ∧
    (tree.root.inOrder.map Node.line).Pairwise (· ≤ ·) ∧
    (∀ n : Node, n.Occurs tree.root → 1 ≤ n.line ∧ n.line ≤ 1 + text.toList.count '\n') ∧
    ∀ line t, (Node.leaf line t).Occurs tree.root → line = t.line := by
  obtain ⟨ts, hts, hparse⟩ := tokenize_of_parseText h
  obtain ⟨hpairs, hlines⟩ := tokenize_places hts
  obtain ⟨first, rest, ns, us, hw, hroot, hinner, hinOrder, hus, hplaced⟩ :=
    (derives_of_parseTokens hparse).placed
  have hsublist : (beforeEnd ts).Sublist ts := List.takeWhile_sublist _
  have hbefore : us.Pairwise Token.Before := hpairs.sublist (hus.trans hsublist)
  -- the root is on the line of the first token, behind which all others stand
  have hfirst : ∀ u ∈ us, first.line ≤ u.line := by
    intro u hu
    have hmem := hus.subset hu
    have hrest := hpairs.sublist hsublist
    rw [hw] at hmem hrest
    rcases List.mem_cons.mp hmem with rfl | hmem
    · exact Int.le_refl _
    · exact (List.rel_of_pairwise_cons hrest hmem).line_le
  have hnodes : ∀ n : Node, n.Occurs tree.root → n = tree.root ∨ ∃ u ∈ us, n.PlacedBy u := by
    intro n hn
    rw [← Node.mem_inOrder_iff, hinOrder] at hn
    rcases List.mem_cons.mp hn with rfl | hn
    · exact .inl rfl
    · obtain ⟨u, hu, hnu⟩ := exists_mem_of_forall₂ hplaced.flip hn
      exact .inr ⟨u, hu, hnu⟩
  refine ⟨?_, ?_, fun n hn => ?_, fun line t ht => ?_⟩
  · rw [Node.leafTokens, hinOrder, List.filterMap_cons_none hinner]
    exact hbefore.sublist (sublist_leafTokens hplaced)
  · rw [hinOrder, List.map_cons, hroot, map_line_eq hplaced, List.pairwise_cons]
    refine ⟨fun line hline => ?_, ?_⟩
    · obtain ⟨u, hu, rfl⟩ := List.mem_map.mp hline
      exact hfirst u hu
    · exact List.pairwise_map.mpr (hbefore.imp fun hab => hab.line_le)
  · rcases hnodes n hn with rfl | ⟨u, hu, hnu⟩
    · rw [hroot]
      exact hlines first (hsublist.subset (hw ▸ List.mem_cons_self))
    · rw [hnu.line]
      exact hlines u (hsublist.subset (hus.subset hu))
  · rcases hnodes _ ht with hleaf | ⟨u, -, hnu⟩
    · rw [← hleaf] at hinner
      cases hinner
    · rw [hnu.leaf t rfl]
      exact hnu.line

/-- A binding over three lines, in which a sum in parentheses is negated and compared. -/
def spreadText : String := "val x :=\nnot (1 +\n2) < y;"

/-- The tree of the text: each operator is on the line of its sign. -/
def spreadRoot : Node :=
  .program 1 [.binary 1 (.leaf 1 ⟨.ident, .text "x", 1, 5⟩)
    (.relation 3
      (.unary 2 (.binary 2 (.leaf 2 ⟨.intLit, .int 1, 2, 6⟩) (.leaf 3 ⟨.intLit, .int 2, 3, 1⟩) .plus)
        .notWord)
      (.leaf 3 ⟨.ident, .text "y", 3, 6⟩) .less)
    .assign]

set_option maxRecDepth 100000 in
/-- The leaves and the lines of the tree, in their order. -/
theorem spreadText_places :
    (parseText 60 spreadText).outcome = .ok ⟨spreadRoot⟩ ∧
    spreadRoot.leafTokens = [⟨.ident, .text "x", 1, 5⟩, ⟨.intLit, .int 1, 2, 6⟩,
      ⟨.intLit, .int 2, 3, 1⟩, ⟨.ident, .text "y", 3, 6⟩] ∧
    spreadRoot.leafTokens.Pairwise Token.Before ∧
    spreadRoot.inOrder.map Node.line = [1, 1, 1, 2, 2, 2, 3, 3, 3] ∧
    ([1, 1, 1, 2, 2, 2, 3, 3, 3] : List Int).Pairwise (· ≤ ·) := by
  have htree : (parseText 60 spreadText).outcome = .ok ⟨spreadRoot⟩ := by cbv
  obtain ⟨hleaves, hlines, -, -⟩ := parseText_places 60 spreadText _ htree
  have horder : spreadRoot.inOrder.map Node.line = [1, 1, 1, 2, 2, 2, 3, 3, 3] := by cbv
  exact ⟨htree, by cbv, hleaves, horder, horder ▸ hlines⟩

end MflFrontend
