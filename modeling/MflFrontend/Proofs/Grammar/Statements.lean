import MflFrontend.Proofs.Grammar.Concatenation
import MflFrontend.Proofs.Grammar.Respacing
import MflFrontend.Proofs.Grammar.Shape
import MflFrontend.Proofs.Lexing.Lines

/-!
# Lists of statements

A list of closed statements falls apart behind any of its semicolons, and its trees with it: no
phrase goes over a semicolon. A part of a program that ends with one is therefore a program of its
own, and so are tokens that differ from it in their places alone; the trees look the same.
-/

namespace MflFrontend

/-! ## Semicolons -/

/-- Statements that are closed end with a semicolon. -/
theorem DerivesAll.last {w : List Token} {ns : List Node} (h : DerivesAll w ns) :
    ∀ t, w.getLast? = some t → t.kind = .semicolon := by
  induction h with
  | nil => nofun
  | @cons s v w n ns _ hs _ ih =>
    intro t ht
    rw [List.getLast?_append_of_ne_nil _ (by simp)] at ht
    cases w with
    | nil =>
      cases ht
      exact hs
    | cons a w =>
      rw [List.getLast?_cons_of_ne_nil (by simp)] at ht
      exact ih t ht

/-- What ends with a semicolon can be taken off in front. -/
theorem DerivesAll.split {u v : List Token} {ns : List Node} (h : DerivesAll (u ++ v) ns)
    (hu : ∀ t, u.getLast? = some t → t.kind = .semicolon) :
    ∃ ns₁ ns₂, ns = ns₁ ++ ns₂ ∧ DerivesAll u ns₁ ∧ DerivesAll v ns₂ := by
  generalize htokens : u ++ v = w at h
  induction h generalizing u with
  | nil =>
    obtain ⟨rfl, rfl⟩ := List.append_eq_nil_iff.mp htokens
    exact ⟨[], [], rfl, .nil, .nil⟩
  | @cons s w₁ w₂ n ns hw₁ hs hw₂ ih =>
    by_cases hnil : u = []
    · subst hnil
      rw [List.nil_append] at htokens
      exact ⟨[], n :: ns, rfl, .nil, htokens ▸ .cons hw₁ hs hw₂⟩
    obtain ⟨u', t, rfl⟩ := (List.eq_nil_or_concat u).resolve_left hnil
    have ht : t.kind = .semicolon := hu t (by simp)
    -- The front part does not end within the first statement, which has no semicolon.
    have hbehind : ∃ u₂, u'.concat t = w₁ ++ s :: u₂ ∧ w₂ = u₂ ++ v := by
      rcases List.append_eq_append_iff.mp htokens with ⟨as, hw₁', -⟩ | ⟨bs, hconcat, hrest⟩
      · refine absurd ht (hw₁.kind_ne t ?_).2
        rw [hw₁']
        simp
      · cases bs with
        | nil =>
          rw [List.append_nil] at hconcat
          refine absurd ht (hw₁.kind_ne t ?_).2
          rw [← hconcat]
          simp
        | cons b bs =>
          injection hrest with hb hrest
          exact ⟨bs, hb ▸ hconcat, hrest⟩
    obtain ⟨u₂, hfront, hw₂'⟩ := hbehind
    have hu₂ : ∀ a, u₂.getLast? = some a → a.kind = .semicolon := by
      intro a ha
      refine hu a ?_
      rw [hfront, List.getLast?_append_of_ne_nil _ (by simp)]
      cases u₂ with
      | nil => cases ha
      | cons b u₂ => rwa [List.getLast?_cons_of_ne_nil (by simp)]
    obtain ⟨ns₁, ns₂, rfl, hns₁, hns₂⟩ := ih hu₂ hw₂'.symm
    exact ⟨n :: ns₁, ns₂, rfl, hfront ▸ .cons hw₁ hs hns₁, hns₂⟩

/-! ## Other places -/

/-- Tokens that differ from a program in their places are one, and its tree looks the same. -/
theorem DerivesProgram.alike {w w' : List Token} {tree : SyntaxTree} (h : DerivesProgram w tree)
    (hw : List.Forall₂ Token.Alike w w') :
    ∃ tree', DerivesProgram w' tree' ∧ SyntaxTree.RelatedBy Token.Alike tree tree' := by
  have hends := h.kind_ne_end
  have hends' : ∀ t ∈ w', t.kind ≠ .endOfInput := by
    intro t ht
    obtain ⟨a, ha, halike⟩ := exists_mem_of_forall₂ hw ht
    exact halike.kind ▸ hends a ha
  obtain ⟨line, hclosed⟩ := closeTokens_concat hends
  obtain ⟨line', hclosed'⟩ := closeTokens_concat hends'
  have hlisted : List.Forall₂ Token.Alike (closeTokens w) (closeTokens w') := by
    rw [hclosed, hclosed']
    exact List.rel_append hw (.cons ⟨rfl, rfl⟩ .nil)
  -- both are parsed in a room in which the parentheses of the program are no trouble
  obtain ⟨d, hroom⟩ : ∃ d, ¬ Crowded d w := ⟨6 * nesting w + 4, not_crowded_iff.mpr (Nat.le_refl _)⟩
  rw [← beforeEnd_eq_self hends] at h
  obtain ⟨s, hrun⟩ := Parse.wholeProgram_of_derives h ((beforeEnd_eq_self hends).symm ▸ hroom)
  rcases Parse.wholeProgram_listed Token.Alike.kind d hlisted with
    ⟨tree₁, tree', s₁, s', hrun₁, hrun', htree⟩ | ⟨complaint, t, t', s₁, s', hrun₁, -⟩
  · rw [hrun] at hrun₁
    injection hrun₁ with htree₁
    obtain ⟨last, hyields⟩ := Parse.wholeProgram_yields d w'
    have hderives := hyields.good_of_ok hrun'
    rw [beforeEnd_eq_self hends'] at hderives
    exact ⟨tree', hderives, htree₁ ▸ htree⟩
  · rw [hrun] at hrun₁
    cases hrun₁

/-- Statements that differ in places alone look the same under their roots. -/
theorem statementLines_alike {ns ns' : List Node}
    (h : List.Forall₂ (Node.RelatedBy Token.Alike) ns ns') :
    Node.statementLines ns = Node.statementLines ns' :=
  Node.layoutTasks_congr (h.imp fun _ _ => Node.RelatedBy.rows) indentStep

/-! ## Texts of statements -/

/-- A text that has the tokens of a program becomes its tree. -/
theorem parseText_of_derives {room : Nat} (hroom : guaranteedRoom ≤ room) {text : String}
    {ws : List Token} {tree : SyntaxTree} (h : HasTokens text ws) (hws : DerivesProgram ws tree)
    (hnesting : nesting ws ≤ guaranteedNesting) : (parseText room text).outcome = .ok tree := by
  obtain ⟨e, htokens, he⟩ := h.exists_sentinel
  have hbefore : beforeEnd (ws ++ [e]) = ws := beforeEnd_append hws.kind_ne_end he []
  have hgood : nesting (goodTokens text) ≤ guaranteedNesting := by
    rwa [goodTokens_of_tokenize htokens, nesting_concat (by rw [he]; decide)]
  rw [parseText_of_tokenize hroom hgood htokens]
  rw [← hbefore] at hws hnesting
  exact parseTokens_ok_iff.mp
    (parseTokens_of_derives hws (not_crowded_of_guaranteed hnesting hroom))

/-- Up to the nesting that is sure to go well, the room of a parse does not matter if there is as much
as a parse has at least. -/
theorem parseText_of_room {room room' : Nat} (hroom : guaranteedRoom ≤ room) {text : String}
    {tree : SyntaxTree} (hnesting : nesting (goodTokens text) ≤ guaranteedNesting)
    (h : (parseText room' text).outcome = .ok tree) : (parseText room text).outcome = .ok tree := by
  obtain ⟨_, htokens, hparse⟩ := tokenize_of_parseText h
  obtain ⟨ws, e, rfl, hends, he⟩ := Cursor.brings_pulls ((Pull.tokens_eq_ok_iff _ _).mp htokens)
  have hprogram := derives_of_parseTokens hparse
  rw [beforeEnd_append hends he] at hprogram
  rw [goodTokens_of_tokenize htokens, nesting_concat (by rw [he]; decide)] at hnesting
  exact parseText_of_derives hroom ⟨e, htokens⟩ hprogram hnesting

/-- A text whose tokens differ from statements in their places becomes a tree that looks like
them. -/
theorem parseText_of_statements {room : Nat} (hroom : guaranteedRoom ≤ room) {text : String}
    {ws us : List Token} {ns : List Node} (h : HasTokens text us)
    (hus : List.Forall₂ Token.Alike ws us) (hws : DerivesAll ws ns) (hne : ws ≠ [])
    (hnesting : nesting ws ≤ guaranteedNesting) :
    ∃ tree inner, (parseText room text).outcome = .ok tree ∧ tree.HasInner inner ∧
      Node.statementLines ns = .ok inner := by
  have hns : ns ≠ [] := by
    rintro rfl
    cases hws
    exact hne rfl
  obtain ⟨first, ws, rfl⟩ := List.exists_cons_of_ne_nil hne
  have hprogram : DerivesProgram (first :: ws) ⟨.program first.line ns⟩ :=
    ⟨first, ns, rfl, hns, hws, rfl⟩
  obtain ⟨tree, htree, l, l', ns₁, ns', heq, rfl, -, halike⟩ := hprogram.alike hus
  injection heq with heq
  injection heq with _ heq
  subst heq
  rw [nesting_kinds (kinds_of_alike hus)] at hnesting
  have hparse := parseText_of_derives hroom h htree hnesting
  -- the tree can be laid out since its tokens come from a text
  obtain ⟨e, htokens, -⟩ := h.exists_sentinel
  obtain ⟨_, _, -, -, hall, hroot⟩ := htree
  injection hroot with hroot
  injection hroot with _ hroot
  subst hroot
  obtain ⟨inner, hinner⟩ := hall.exists_statementLines fun t ht =>
    isWritable_of_tokenize htokens t (List.mem_append_left [e] ht)
  exact ⟨_, inner, hparse, hasInner_program hinner l', statementLines_alike halike ▸ hinner⟩

end MflFrontend
