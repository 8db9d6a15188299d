import MflFrontend.Node.Agreement
import MflFrontend.Proofs.Grammar.Recognition
import MflFrontend.Proofs.Grammar.Shape
import MflFrontend.Proofs.Node.Visits
import Mathlib.Data.List.Forall2

/-!
# Writing trees and reading them back

A well-shaped tree is written with parentheses only where its operators' levels ask for them. What
is written can be derived at the level of the tree, so that a parse brings the tree back; only the
lines of its nodes are those of what was read.
-/

namespace MflFrontend

/-! ## Writing -/

/-- How tight an operator binds; what is no operator is tightest. -/
def TokenKind.level (k : TokenKind) : Nat :=
  if k ∈ logical then 0
  else if k ∈ relational then 1
  else if k ∈ additive then 2
  else if k ∈ multiplicative then 3
  else if k = notWord then 4
  else 5

/-- How tight a node holds together: as its operator binds, and a leaf is tightest. -/
def Node.level : Node → Nat
  | binary _ _ _ op => op.level
  | relation _ _ _ op => op.level
  | unary _ _ op => op.level
  | _ => 5

/-- A token of which nothing but its kind matters. -/
def Token.sign (k : TokenKind) : Token := { kind := k }

/-- Tokens in parentheses, if there have to be some. -/
def enclosedIf (c : Prop) [Decidable c] (w : List Token) : List Token :=
  if c then Token.sign .openParen :: (w ++ [Token.sign .closeParen]) else w

/-- An expression, written with parentheses around those operands that are too loose. -/
def Node.written : Node → List Token
  | leaf _ t => [t]
  | unary _ n op => Token.sign op :: enclosedIf (n.level < 5) n.written
  | binary _ l r op =>
    enclosedIf (l.level < op.level) l.written ++
      Token.sign op :: enclosedIf (r.level ≤ op.level) r.written
  | relation _ l r op =>
    enclosedIf (l.level ≤ 1) l.written ++ Token.sign op :: enclosedIf (r.level ≤ 1) r.written
  | _ => []

/-- A statement, written. -/
def Node.writtenStatement : Node → List Token
  | binary _ (leaf _ x) n .assign =>
    Token.sign .valWord :: x :: Token.sign .assign :: n.written
  | n => n.written

/-- A program, written. -/
def Node.writtenProgram : Node → List Token
  | program _ ns => ns.flatMap fun n => n.writtenStatement ++ [Token.sign .semicolon]
  | _ => []

/-- The tokens `ts` spell `w`: the kinds are the same, and literals and identifiers are the very
tokens of `w`. -/
def Spells (ts w : List Token) : Prop :=
  List.Forall₂ (fun t a => t.kind = a.kind ∧ (a.kind ∈ TokenKind.literals → t = a)) ts w

namespace Spells

variable {ts v w : List Token} {a : Token} {k : TokenKind}

theorem of_append (h : Spells ts (v ++ w)) :
    ∃ vs ws, ts = vs ++ ws ∧ Spells vs v ∧ Spells ws w :=
  ⟨ts.take v.length, ts.drop v.length, (List.take_append_drop ..).symm,
    List.forall₂_take_append ts v w h, List.forall₂_drop_append ts v w h⟩

theorem of_cons (h : Spells ts (a :: w)) :
    ∃ t us, ts = t :: us ∧ t.kind = a.kind ∧ (a.kind ∈ TokenKind.literals → t = a) ∧
      Spells us w := by
  cases h with
  | cons hta hus => exact ⟨_, _, rfl, hta.1, hta.2, hus⟩

theorem of_singleton (h : Spells ts [a]) :
    ∃ t, ts = [t] ∧ t.kind = a.kind ∧ (a.kind ∈ TokenKind.literals → t = a) := by
  obtain ⟨t, us, rfl, hk, ht, hus⟩ := h.of_cons
  cases hus
  exact ⟨t, rfl, hk, ht⟩

theorem nesting_eq (h : Spells ts w) : nesting ts = nesting w := by
  induction h with
  | nil => rfl
  | cons hta _ ih => rw [nesting, nesting, hta.1, ih]

theorem refl (w : List Token) : Spells w w :=
  List.forall₂_same.mpr fun _ _ => ⟨rfl, fun _ => rfl⟩

end Spells

/-! ## Lines apart -/

mutual

/-- The tree without the lines of its nodes. -/
def Node.unlined : Node → Node
  | .program _ ns => .program 0 (unlinedAll ns)
  | .binding _ x n => .binding 0 x n.unlined
  | .binary _ l r op => .binary 0 l.unlined r.unlined op
  | .relation _ l r op => .relation 0 l.unlined r.unlined op
  | .unary _ n op => .unary 0 n.unlined op
  | .leaf _ t => .leaf 0 t
  | .stray _ name => .stray 0 name

/-- The trees without the lines of their nodes. -/
def Node.unlinedAll : List Node → List Node
  | [] => []
  | n :: ns => n.unlined :: unlinedAll ns

end

namespace Node

theorem unlinedAll_eq_map (ns : List Node) : unlinedAll ns = ns.map unlined := by
  induction ns with
  | nil => rw [unlinedAll, List.map_nil]
  | cons n ns ih => rw [unlinedAll, List.map_cons, ih]

theorem unlined_variant (n : Node) : n.unlined.variant = n.variant := by
  cases n <;> simp only [unlined] <;> rfl

theorem unlined_ownKey (n : Node) : n.unlined.ownKey = n.ownKey := by
  cases n <;> simp only [unlined] <;> rfl

theorem unlined_children (n : Node) : n.unlined.children = n.children.map unlined := by
  cases n with
  | program line ns => simp only [unlined, children, unlinedAll_eq_map]
  | _ => simp only [unlined, children, List.map_cons, List.map_nil]

/-- A node of a well-shaped tree, the root or any other. -/
def IsPart (n : Node) : Prop := n.WellShaped ∨ n.IsStatement

theorem IsExpression.isPart {n : Node} (h : n.IsExpression) : n.IsPart := .inr (.expression h)

/-- What stands under a part is a part. -/
theorem IsPart.children {n : Node} (h : n.IsPart) : ∀ m ∈ n.children, m.IsPart := by
  have hexpression : ∀ n : Node, n.IsExpression → ∀ m ∈ n.children, m.IsExpression := by
    intro n hn m hm
    cases hn with
    | leaf ht => simp [Node.children] at hm
    | binary hop hl hr =>
      rcases List.mem_pair.mp hm with rfl | rfl
      · exact hl
      · exact hr
    | relation hop hl hr =>
      rcases List.mem_pair.mp hm with rfl | rfl
      · exact hl
      · exact hr
    | unary hn => exact List.mem_singleton.mp hm ▸ hn
  intro m hm
  rcases h with ⟨_, hns⟩ | ⟨hn⟩ | ⟨hx, hn⟩
  · exact .inr (hns m hm)
  · exact (hexpression n hn m hm).isPart
  · rcases List.mem_pair.mp hm with rfl | rfl
    · exact IsExpression.isPart (.leaf (by rw [hx]; decide))
    · exact hn.isPart

theorem IsPart.ownKey {n : Node} (h : n.IsPart) : ∃ key, n.ownKey = .ok key := by
  rcases h with ⟨_, _⟩ | ⟨hn⟩ | ⟨_, _⟩
  · exact ⟨_, rfl⟩
  · cases hn <;> exact ⟨_, rfl⟩
  · exact ⟨_, rfl⟩

/-- A part coincides with every tree that differs from it in lines alone. -/
theorem IsPart.coincides {a b : Node} (hb : b.IsPart) (h : a.unlined = b.unlined) :
    Coincides a b := by
  have hvariant : a.variant = b.variant := by rw [← unlined_variant a, h, unlined_variant]
  have hown : a.ownKey = b.ownKey := by rw [← unlined_ownKey a, h, unlined_ownKey]
  have hchildren : a.children.map unlined = b.children.map unlined := by
    rw [← unlined_children, h, unlined_children]
  have hlength : a.children.length = b.children.length := by
    simpa using congrArg List.length hchildren
  have hpairs : List.Forall₂ (fun m n : Node => m.unlined = n.unlined) a.children b.children := by
    rw [← List.forall₂_map_right_iff, ← List.forall₂_map_left_iff, List.forall₂_eq_eq_eq]
    exact hchildren
  refine coincides_iff.mpr ⟨⟨hvariant, hown, hlength⟩, hown ▸ hb.ownKey, ?_⟩
  refine List.forall₂_iff_zip.mpr ⟨hlength, fun {m n} hmn => ?_⟩
  have hn : n ∈ b.children := (List.of_mem_zip hmn).2
  have hsize : n.size < b.size := size_lt_of_mem_children hn
  exact (hb.children n hn).coincides (List.forall₂_zip hpairs hmn)
termination_by b.size

/-- A well-shaped tree agrees with every tree that differs from it in lines alone. -/
theorem WellShaped.agrees {a b : Node} (hb : b.WellShaped) (h : a.unlined = b.unlined) :
    a.agrees b = .ok true :=
  agrees_eq_true_iff.mpr (IsPart.coincides (.inl hb) h)

end Node

/-! ## Reading back -/

/-- The sort of phrases whose operators are as tight as a level or tighter. -/
def phraseAt : Nat → Phrase
  | 0 => .expression
  | 1 => .comparison
  | 2 => .sum
  | 3 => .product
  | 4 => .negation
  | _ => .factor

/-- A phrase is one of every looser sort too. -/
theorem Derives.loosen {i j : Nat} (hij : i ≤ j) {w : List Token} {n : Node}
    (h : Derives (phraseAt j) w n) : Derives (phraseAt i) w n := by
  have hstep : ∀ k, Derives (phraseAt (k + 1)) w n → Derives (phraseAt k) w n := by
    intro k hk
    match k with
    | 0 => exact .single (t := .connectives) hk
    | 1 => exact .uncompared hk
    | 2 => exact .single (t := .sums) hk
    | 3 => exact .single (t := .products) hk
    | 4 => exact .plain hk
    | k + 5 => exact hk
  induction hij with
  | refl => exact h
  | step _ ih => exact ih (hstep _ h)

/-- The level of the operators of a tier. -/
def Tier.level : Tier → Nat
  | connectives => 0
  | sums => 2
  | products => 3

theorem Tier.level_of_mem {t : Tier} {k : TokenKind} (h : k ∈ t.operators) : k.level = t.level := by
  cases t <;> cases k <;> revert h <;> decide

theorem Tier.phraseAt_level (t : Tier) : phraseAt t.level = .tier t := by
  cases t <;> rfl

theorem Tier.phraseAt_level_succ (t : Tier) : phraseAt (t.level + 1) = t.operand := by
  cases t <;> rfl

/-- Spellings of the written node can be derived at its level, as the node with other lines. -/
def ReadsBack (n : Node) : Prop :=
  ∀ ts, Spells ts n.written →
    ∃ m, Derives (phraseAt n.level) ts m ∧ m.unlined = n.unlined

/-- An operand can be derived at the level that its place asks for, in parentheses or without. -/
theorem ReadsBack.operand {n : Node} (h : ReadsBack n) {c : Prop} [Decidable c] {i : Nat}
    (hc : ¬ c → i ≤ n.level) {ts : List Token} (hts : Spells ts (enclosedIf c n.written)) :
    ∃ m, Derives (phraseAt i) ts m ∧ m.unlined = n.unlined := by
  unfold enclosedIf at hts
  split at hts
  · obtain ⟨o, us, rfl, ho, -, hus⟩ := hts.of_cons
    obtain ⟨vs, cs, rfl, hvs, hcs⟩ := hus.of_append
    obtain ⟨c, rfl, hck, -⟩ := hcs.of_singleton
    obtain ⟨m, hm, hline⟩ := h vs hvs
    have hexpression : Derives .expression vs m := hm.loosen (i := 0) (Nat.zero_le _)
    have hfactor : Derives (phraseAt (i + 5)) (o :: (vs ++ [c])) m := .parenthesis ho hexpression hck
    exact ⟨m, hfactor.loosen (Nat.le_add_right ..), hline⟩
  · next hnot =>
    obtain ⟨m, hm, hline⟩ := h ts hts
    exact ⟨m, hm.loosen (hc hnot), hline⟩

theorem Node.IsExpression.readsBack {n : Node} (h : n.IsExpression) : ReadsBack n := by
  induction h with
  | @leaf line a ha =>
    intro ts hts
    obtain ⟨t, rfl, hk, ht⟩ := Spells.of_singleton hts
    obtain rfl := ht ha
    exact ⟨_, .literal ha, rfl⟩
  | @binary line l r op t hop _ _ ihl ihr =>
    intro ts hts
    obtain ⟨vs, us, rfl, hvs, hus⟩ := hts.of_append
    obtain ⟨o, ws, rfl, ho, -, hws⟩ := hus.of_cons
    -- a chain leans to the left: only its left operand may be of the same tier
    obtain ⟨l', hl', hline⟩ := ihl.operand (i := op.level) Nat.not_lt.mp hvs
    obtain ⟨r', hr', hrline⟩ := ihr.operand (i := op.level + 1) Nat.not_le.mp hws
    have hlevel : op.level = t.level := Tier.level_of_mem hop
    rw [hlevel, Tier.phraseAt_level] at hl'
    rw [hlevel, Tier.phraseAt_level_succ] at hr'
    have hok : o.kind = op := ho
    have hall : Derives (.tier t) (vs ++ o :: ws) (.binary o.line l' r' o.kind) :=
      .joined hl' (hok ▸ hop) hr'
    refine ⟨.binary o.line l' r' o.kind, ?_, ?_⟩
    · rw [Node.level, hlevel, Tier.phraseAt_level]
      exact hall
    · simp only [Node.unlined, hline, hrline, hok]
  | @relation line l r op hop _ _ ihl ihr =>
    intro ts hts
    obtain ⟨vs, us, rfl, hvs, hus⟩ := hts.of_append
    obtain ⟨o, ws, rfl, ho, -, hws⟩ := hus.of_cons
    -- comparisons do not chain, so both operands bind tighter
    obtain ⟨l', hl', hline⟩ := ihl.operand (i := 2) Nat.not_le.mp hvs
    obtain ⟨r', hr', hrline⟩ := ihr.operand (i := 2) Nat.not_le.mp hws
    have hok : o.kind = op := ho
    have hlevel : op.level = 1 := by
      cases op <;> revert hop <;> decide
    have hall : Derives .comparison (vs ++ o :: ws) (.relation o.line l' r' o.kind) :=
      .compared hl' (hok ▸ hop) hr'
    refine ⟨.relation o.line l' r' o.kind, ?_, ?_⟩
    · rw [Node.level, hlevel]
      exact hall
    · simp only [Node.unlined, hline, hrline, hok]
  | @unary line n _ ih =>
    intro ts hts
    obtain ⟨k, ws, rfl, hk, -, hws⟩ := hts.of_cons
    obtain ⟨m, hm, hline⟩ := ih.operand (i := 5) Nat.not_lt.mp hws
    exact ⟨_, .negated hk hm, by simp only [Node.unlined, hline]⟩

theorem Node.IsStatement.readsBack {n : Node} (h : n.IsStatement) {ts : List Token}
    (hts : Spells ts n.writtenStatement) :
    ∃ m, Derives .statement ts m ∧ m.unlined = n.unlined := by
  cases h with
  | expression hn =>
    -- an expression is no binding, so that it is written the same as a statement
    have hwritten : n.writtenStatement = n.written := by
      unfold Node.writtenStatement
      cases hn with
      | @binary _ _ _ op t hop _ _ =>
        split
        · next heq =>
          injection heq with _ _ _ hassign
          subst hassign
          exact absurd hop (by cases t <;> decide)
        · rfl
      | _ => rfl
    rw [hwritten] at hts
    obtain ⟨m, hm, hline⟩ := hn.readsBack ts hts
    exact ⟨m, .bare (hm.loosen (i := 0) (Nat.zero_le _)), hline⟩
  | @binding line line' a n ha hn =>
    obtain ⟨k, us, rfl, hk, -, hus⟩ := hts.of_cons
    obtain ⟨x, vs, rfl, -, hx, hvs⟩ := hus.of_cons
    obtain ⟨e, ws, rfl, he, -, hws⟩ := hvs.of_cons
    obtain rfl := hx (by rw [ha]; decide)
    obtain ⟨m, hm, hline⟩ := hn.readsBack ws hws
    refine ⟨_, .binding hk ha he (hm.loosen (i := 0) (Nat.zero_le _)), ?_⟩
    simp only [Node.unlined, hline]

theorem statements_readBack {ns : List Node} (h : ∀ n ∈ ns, n.IsStatement) {ts : List Token}
    (hts : Spells ts (ns.flatMap fun n => n.writtenStatement ++ [Token.sign .semicolon])) :
    ∃ ms, DerivesAll ts ms ∧ ms.map Node.unlined = ns.map Node.unlined := by
  induction ns generalizing ts with
  | nil =>
    cases hts
    exact ⟨[], .nil, rfl⟩
  | cons n ns ih =>
    rw [List.flatMap_cons, List.append_assoc] at hts
    obtain ⟨vs, us, rfl, hvs, hus⟩ := hts.of_append
    obtain ⟨s, ws, rfl, hs, -, hws⟩ := Spells.of_cons hus
    obtain ⟨m, hm, hline⟩ := (h n List.mem_cons_self).readsBack hvs
    obtain ⟨ms, hms, hlines⟩ := ih (fun n' hn' => h n' (List.mem_cons_of_mem _ hn')) hws
    exact ⟨m :: ms, .cons hm hs hms, by rw [List.map_cons, List.map_cons, hline, hlines]⟩

theorem Node.WellShaped.readsBack {root : Node} (h : root.WellShaped) {ts : List Token}
    (hts : Spells ts root.writtenProgram) :
    ∃ tree, DerivesProgram ts tree ∧ tree.root.unlined = root.unlined := by
  obtain ⟨hne, hns⟩ := h
  obtain ⟨ms, hms, hlines⟩ := statements_readBack hns hts
  have hmsne : ms ≠ [] := by
    rintro rfl
    exact hne (List.map_eq_nil_iff.mp hlines.symm)
  obtain ⟨first, w, rfl⟩ := List.exists_cons_of_ne_nil (hms.ne_nil hmsne)
  refine ⟨_, ⟨first, ms, rfl, hmsne, hms, rfl⟩, ?_⟩
  simp only [unlined, unlinedAll_eq_map, hlines]

/-- Whatever is read, the tree of a parse is well-shaped; and every well-shaped tree is the tree of
its own spelling, up to lines, if the parentheses that it needs nest no deeper than guaranteed and
the parse has the room that it has at least. -/
theorem parse_of_written :
    (∀ room source tree, (parseSource room source).outcome = .ok tree → tree.root.WellShaped) ∧
    ∀ room root ts, guaranteedRoom ≤ room → root.WellShaped → Spells ts root.writtenProgram →
      nesting root.writtenProgram ≤ guaranteedNesting →
      ∃ tree, (parseTokens room ts).outcome = .ok tree ∧ tree.agrees ⟨root⟩ = .ok true ∧
        tree.root.unlined = root.unlined := by
  refine ⟨fun room source tree => parseSource_wellShaped,
    fun room root ts hroom hroot hts hnesting => ?_⟩
  obtain ⟨tree, htree, hline⟩ := hroot.readsBack hts
  have hbefore : beforeEnd ts = ts := beforeEnd_eq_self htree.kind_ne_end
  have hguaranteed : nesting ts ≤ guaranteedNesting := by
    rw [hts.nesting_eq]
    exact hnesting
  rw [← hbefore] at htree hguaranteed
  have hparse := parseTokens_of_derives htree (not_crowded_of_guaranteed hguaranteed hroom)
  exact ⟨tree, hparse, hroot.agrees hline, hline⟩

/-- The tree of `a - (b - c) < not (a or b)`, with lines that no text has. -/
def sampleRoot : Node :=
  .program 7
    [.relation 5
      (.binary 4 (.leaf 0 ⟨.ident, .text "a", 1, 1⟩)
        (.binary 3 (.leaf 0 ⟨.ident, .text "b", 1, 2⟩) (.leaf 0 ⟨.ident, .text "c", 1, 3⟩) .minus)
        .minus)
      (.unary 2
        (.binary 1 (.leaf 0 ⟨.ident, .text "a", 2, 1⟩) (.leaf 0 ⟨.ident, .text "b", 2, 2⟩) .orWord)
        .notWord)
      .less]

/-- Of the sample, the right operand of the difference and the negated operand are put in
parentheses. -/
theorem sampleRoot_read : sampleRoot.WellShaped ∧
    Spells sampleRoot.writtenProgram sampleRoot.writtenProgram ∧
    nesting sampleRoot.writtenProgram ≤ guaranteedNesting ∧
    ∃ tree, (parseTokens guaranteedRoom sampleRoot.writtenProgram).outcome = .ok tree ∧
      tree.agrees ⟨sampleRoot⟩ = .ok true ∧ tree.root.unlined = sampleRoot.unlined := by
  have hroot : sampleRoot.WellShaped := by
    refine .program (List.cons_ne_nil _ _) fun n hn => ?_
    rw [List.mem_singleton.mp hn]
    refine .expression (.relation (by decide) (.binary (t := .sums) (by decide) ?_ ?_) (.unary ?_))
    · exact .leaf (by decide)
    · exact .binary (t := .sums) (by decide) (.leaf (by decide)) (.leaf (by decide))
    · exact .binary (t := .connectives) (by decide) (.leaf (by decide)) (.leaf (by decide))
  have hspells := Spells.refl sampleRoot.writtenProgram
  have hnesting : nesting sampleRoot.writtenProgram ≤ guaranteedNesting := by decide
  exact ⟨hroot, hspells, hnesting,
    parse_of_written.2 _ _ _ (Nat.le_refl _) hroot hspells hnesting⟩

end MflFrontend
