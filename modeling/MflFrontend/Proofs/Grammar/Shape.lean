import MflFrontend.Proofs.Grammar.Stepping

/-!
# The shape of trees that are read

A tree is well-shaped if it is a program of at least one statement, in which a binding has an
identifier on its left and stands nowhere but on top of a statement, and operators stand where their
tier puts them. Whatever a parse reads from, a text or a list of tokens, the tree it gives is
well-shaped.
-/

namespace MflFrontend

/-- An expression tree: literals and identifiers under connectives, signs and negations. -/
inductive Node.IsExpression : Node → Prop where
  /-- A literal or an identifier. -/
  | leaf {line : Int} {t : Token} (ht : t.kind ∈ TokenKind.literals) : IsExpression (.leaf line t)
  /-- Two expressions under an operator of a tier that groups to the left. -/
  | binary {line : Int} {l r : Node} {op : TokenKind} {t : Tier} (hop : op ∈ t.operators)
      (hl : IsExpression l) (hr : IsExpression r) : IsExpression (.binary line l r op)
  /-- Two expressions under a comparison. -/
  | relation {line : Int} {l r : Node} {op : TokenKind} (hop : op ∈ TokenKind.relational)
      (hl : IsExpression l) (hr : IsExpression r) : IsExpression (.relation line l r op)
  /-- A negation of an expression. -/
  | unary {line : Int} {n : Node} (hn : IsExpression n) : IsExpression (.unary line n .notWord)

/-- A statement tree: an expression, or an identifier bound to one. -/
inductive Node.IsStatement : Node → Prop where
  /-- An expression is a statement. -/
  | expression {n : Node} (hn : n.IsExpression) : IsStatement n
  /-- So is a binding, whose sign stands nowhere else. -/
  | binding {line line' : Int} {x : Token} {n : Node} (hx : x.kind = .ident)
      (hn : n.IsExpression) : IsStatement (.binary line (.leaf line' x) n .assign)

/-- A program of at least one statement. -/
inductive Node.WellShaped : Node → Prop where
  /-- All that stands under the root is a statement. -/
  | program {line : Int} {ns : List Node} (hne : ns ≠ []) (hns : ∀ n ∈ ns, n.IsStatement) :
      WellShaped (.program line ns)

namespace Parse

variable {α β : Type}

/-- Wherever it starts, a step that succeeds makes something with the property. -/
def Makes (m : Parse α) (P : α → Prop) : Prop :=
  ∀ s, m.Yields s (fun a _ => P a) fun _ _ => True

namespace Makes

variable {m m' : Parse α} {k : α → Parse β} {P : α → Prop} {Q : β → Prop}

theorem pure {a : α} (h : P a) : Makes (Pure.pure a) P := fun s => Yields.of_ok (u := s) rfl h

theorem bind (hm : Makes m P) (hk : ∀ a, P a → Makes (k a) Q) : Makes (m >>= k) Q := fun s =>
  (hm s).bind (fun _ _ h => h) fun a s' ha => hk a ha s'

/-- A step of which nothing is known may come first. -/
theorem after (m : Parse α) (hk : ∀ a, Makes (k a) Q) : Makes (m >>= k) Q := by
  have hm : Makes m fun _ => True := by
    intro s
    unfold Yields
    split <;> trivial
  exact hm.bind fun a _ => hk a

theorem reject (complaint : Complaint) : Makes (Parse.reject complaint) P := fun s =>
  (reject_fails complaint s).mono (fun _ _ h => h.elim) fun _ _ h => h

/-- Where the kind of the current token decides, the first branch may look at that token. -/
theorem choose {kinds : List TokenKind}
    (h : ∀ s t, s.source.current? = some t → t.kind ∈ kinds →
      m.Yields s (fun a _ => P a) fun _ _ => True) (h' : Makes m' P) :
    Makes (currentIs kinds >>= fun b => if b = true then m else m') P := by
  intro s
  cases hcurrent : s.source.current? with
  | none =>
    exact Yields.of_error (bind_of_error (bind_of_error (current_of_none hcurrent))) trivial
  | some t =>
    refine Yields.step (currentIs_of_current? hcurrent kinds) ?_
    by_cases ht : t.kind ∈ kinds
    · rw [if_pos (List.contains_iff_mem.mpr ht)]
      exact h s t hcurrent ht
    · rw [if_neg (mt List.contains_iff_mem.mp ht)]
      exact h' s

theorem expect (kind : TokenKind) (what : Expectation) :
    Makes (Parse.expect kind what) fun t => t.kind = kind := by
  refine after _ fun t => ?_
  by_cases ht : t.kind = kind
  · rw [if_pos ht]
    exact after _ fun _ => pure ht
  · rw [if_neg ht]
    exact reject _

end Makes

/-! ## Expressions -/

theorem makes_factorWith {room : Nat} {expression : Parse Node}
    (he : Makes expression Node.IsExpression) :
    Makes (factorWith room expression) Node.IsExpression := by
  refine Makes.after _ fun line => ?_
  refine Makes.choose (fun s t hs ht => ?_) ?_
  · refine Yields.step (current_of_current? hs) ?_
    exact Makes.after _ (fun _ => Makes.pure (.leaf ht)) s
  · refine Makes.choose (fun s t _ _ => ?_) (Makes.reject _)
    refine Makes.after _ (fun _ => ?_) s
    exact he.bind fun n hn => Makes.after _ fun _ => Makes.pure hn

section Tiers

variable {room : Nat} {outer factor : Parse Node} (ho : Makes outer Node.IsExpression)
  (hf : Makes factor Node.IsExpression)

include hf in
theorem makes_negationOf : Makes (negationOf room factor) Node.IsExpression := by
  refine Makes.choose (fun s t _ _ => ?_) hf
  refine Makes.after _ (fun line => Makes.after _ fun _ => ?_) s
  exact hf.bind fun n hn => Makes.pure (.unary hn)

/-- The loop of a tier puts expressions under operators of the tier. -/
theorem makes_operands {t : Tier} {operand : Parse Node} (ho : Makes operand Node.IsExpression)
    (rounds : List Pull) {left : Node} (hleft : left.IsExpression) :
    Makes (operands t.operators operand rounds left) Node.IsExpression := by
  induction rounds generalizing left with
  | nil => exact Makes.pure hleft
  | cons round rounds ih =>
    refine Makes.choose (fun s op hs hop => ?_) (Makes.pure hleft)
    refine Yields.step (current_of_current? hs) ?_
    refine Makes.after _ (fun _ => ?_) s
    exact ho.bind fun right hright => ih (.binary hop hleft hright)

theorem makes_tier {t : Tier} {operand : Parse Node} (ho : Makes operand Node.IsExpression) :
    Makes (tier t.operators operand) Node.IsExpression :=
  ho.bind fun _ hfirst => Makes.after _ fun rounds => makes_operands ho rounds hfirst

include hf in
theorem makes_sumOf : Makes (sumOf room factor) Node.IsExpression := by
  have hp : Makes (productOf room factor) Node.IsExpression :=
    makes_tier (t := .products) (makes_negationOf hf)
  exact makes_tier (t := .sums) hp

include ho hf in
theorem makes_comparisonOf : Makes (comparisonOf room outer factor) Node.IsExpression := by
  refine (makes_sumOf ho).bind fun left hleft => ?_
  refine Makes.choose (fun s op hop hmem => ?_) (Makes.pure hleft)
  refine Yields.step (current_of_current? hop) ?_
  refine Makes.after _ (fun _ => ?_) s
  exact (makes_sumOf hf).bind fun right hright => Makes.pure (.relation hmem hleft hright)

include ho hf in
theorem makes_expressionOf : Makes (expressionOf room outer factor) Node.IsExpression :=
  makes_tier (t := .connectives) (makes_comparisonOf ho hf)

end Tiers

theorem makes_factor (room : Nat) : Makes (factor room) Node.IsExpression := by
  induction room using factor.induct with
  | case1 room outer inner =>
    rw [factor]
    exact makes_factorWith (makes_expressionOf outer inner)
  | case2 room hsmall =>
    rw [factor.eq_2 room hsmall]
    exact makes_factorWith (Makes.reject _)

theorem makes_expression (d : Nat) : Makes (expression d) Node.IsExpression :=
  makes_expressionOf (makes_factor (d + 1)) (makes_factor d)

/-! ## Programs -/

theorem makes_statement (d : Nat) : Makes (statement d) Node.IsStatement := by
  have hexpression : Makes (expression d) Node.IsStatement := fun s =>
    (makes_expression d s).mono (fun _ _ h => .expression h) fun _ _ h => h
  refine Makes.choose (fun s t _ _ => ?_) hexpression
  refine Makes.after _ (fun line => Makes.after _ fun _ => ?_) s
  refine (Makes.expect .ident .boundName).bind fun x hx => Makes.after _ fun _ => ?_
  exact (makes_expression d).bind fun n hn => Makes.pure (.binding hx hn)

theorem makes_closedStatement (d : Nat) : Makes (closedStatement d) Node.IsStatement :=
  (makes_statement d).bind fun _ hn => Makes.after _ fun _ => Makes.pure hn

theorem makes_statements (d : Nat) (rounds : List Pull) :
    Makes (statements d rounds) fun ns => ∀ n ∈ ns, n.IsStatement := by
  induction rounds with
  | nil => exact Makes.pure (by simp)
  | cons round rounds ih =>
    refine Makes.choose (fun s t _ _ => ?_) ?_
    · exact Makes.pure (by simp) s
    · refine (makes_closedStatement d).bind fun n hn => ih.bind fun ns hns => ?_
      exact Makes.pure (List.forall_mem_cons.mpr ⟨hn, hns⟩)

theorem makes_wholeProgram (d : Nat) : Makes (wholeProgram d) fun tree => tree.root.WellShaped := by
  refine Makes.after _ fun _ => Makes.after _ fun line => ?_
  have hstatements : Makes (programStatements d) fun ns => ns ≠ [] ∧ ∀ n ∈ ns, n.IsStatement := by
    refine (makes_closedStatement d).bind fun n hn => Makes.after _ fun rounds => ?_
    refine (makes_statements d rounds).bind fun ns hns => Makes.pure ⟨List.cons_ne_nil n ns, ?_⟩
    exact List.forall_mem_cons.mpr ⟨hn, hns⟩
  refine hstatements.bind fun ns hns => Makes.after _ fun _ => Makes.after _ fun _ => ?_
  exact Makes.pure (.program hns.1 hns.2)

end Parse

/-- The tree of a parse is well-shaped, whatever was read. -/
theorem parseSource_wellShaped {room : Nat} {source : TokenSource} {tree : SyntaxTree}
    (h : (parseSource room source).outcome = .ok tree) : tree.root.WellShaped := by
  obtain ⟨s, hrun⟩ := run_of_parseSource h
  exact (Parse.makes_wholeProgram (factorRoom room) { source := source }).good_of_ok hrun

end MflFrontend
