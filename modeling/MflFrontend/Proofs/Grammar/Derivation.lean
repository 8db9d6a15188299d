import MflFrontend.Grammar.Program
import Mathlib.Data.List.Basic
import Mathlib.Tactic.Common

/-!
# Derivations

The grammar as a relation: `Derives p w n` says that the tokens `w` are a phrase of the sort `p` and
that `n` is the tree of a derivation. It knows nothing of readers, cursors or limits. The three
tiers that group to the left are one pair of rules; the left operand of `joined` is a phrase of the
same tier, so that a repeated operator takes all that stands before it.

`nesting` is how deep parentheses nest in a list of tokens, balanced or not. Inside a phrase they
are balanced, so that what follows a phrase nests as deep as it does on its own.
-/

namespace MflFrontend

/-- The tiers of operators that group to the left. -/
inductive Tier where
  /-- The connectives, over comparisons. -/
  | connectives
  /-- The signs of a sum, over products. -/
  | sums
  /-- The signs of a product, over negations. -/
  | products
  deriving DecidableEq

/-- The sorts of phrases below a program. -/
inductive Phrase where
  /-- A binding or an expression. -/
  | statement
  /-- A chain of operands with the operators of a tier. -/
  | tier (t : Tier)
  /-- At most one comparison of two sums. -/
  | comparison
  /-- A factor with at most one negation before it. -/
  | negation
  /-- A literal, an identifier or a parenthesis. -/
  | factor
  deriving DecidableEq

namespace Tier

/-- The operators of a tier. -/
def operators : Tier → List TokenKind
  | connectives => TokenKind.logical
  | sums => TokenKind.additive
  | products => TokenKind.multiplicative

/-- What the operators of a tier stand between. -/
def operand : Tier → Phrase
  | connectives => .comparison
  | sums => .tier .products
  | products => .negation

end Tier

namespace Phrase

/-- An expression is a chain of the loosest tier. -/
abbrev expression : Phrase := .tier .connectives

/-- A sum is a chain of the middle tier. -/
abbrev sum : Phrase := .tier .sums

/-- A product is a chain of the tightest tier. -/
abbrev product : Phrase := .tier .products

end Phrase

/-- The tokens are a phrase of the sort, and the node is its tree. -/
inductive Derives : Phrase → List Token → Node → Prop where
  /-- A literal or an identifier is a factor. -/
  | literal {t : Token} (ht : t.kind ∈ TokenKind.literals) : Derives .factor [t] (.leaf t.line t)
  /-- So is an expression in parentheses, which leave no node. -/
  | parenthesis {o c : Token} {w : List Token} {n : Node} (ho : o.kind = .openParen)
      (hw : Derives .expression w n) (hc : c.kind = .closeParen) :
      Derives .factor (o :: (w ++ [c])) n
  /-- A factor may stand without a negation. -/
  | plain {w : List Token} {n : Node} (hw : Derives .factor w n) : Derives .negation w n
  /-- A negation is of one factor. -/
  | negated {k : Token} {w : List Token} {n : Node} (hk : k.kind = .notWord)
      (hw : Derives .factor w n) : Derives .negation (k :: w) (.unary k.line n .notWord)
  /-- A chain may have one operand. -/
  | single {t : Tier} {w : List Token} {n : Node} (hw : Derives t.operand w n) :
      Derives (.tier t) w n
  /-- A chain and one more operand is a chain; all before the operator is its left side. -/
  | joined {t : Tier} {op : Token} {v w : List Token} {l r : Node} (hv : Derives (.tier t) v l)
      (hop : op.kind ∈ t.operators) (hw : Derives t.operand w r) :
      Derives (.tier t) (v ++ op :: w) (.binary op.line l r op.kind)
  /-- A sum may stand without a comparison. -/
  | uncompared {w : List Token} {n : Node} (hw : Derives .sum w n) : Derives .comparison w n
  /-- A comparison is of two sums. -/
  | compared {op : Token} {v w : List Token} {l r : Node} (hv : Derives .sum v l)
      (hop : op.kind ∈ TokenKind.relational) (hw : Derives .sum w r) :
      Derives .comparison (v ++ op :: w) (.relation op.line l r op.kind)
  /-- An expression is a statement. -/
  | bare {w : List Token} {n : Node} (hw : Derives .expression w n) : Derives .statement w n
  /-- A binding gives a name to an expression. -/
  | binding {k x a : Token} {w : List Token} {n : Node} (hk : k.kind = .valWord)
      (hx : x.kind = .ident) (ha : a.kind = .assign) (hw : Derives .expression w n) :
      Derives .statement (k :: x :: a :: w) (.binary k.line (.leaf x.line x) n .assign)

/-- The tokens are statements, each closed by a semicolon, and the nodes are their trees in order. -/
inductive DerivesAll : List Token → List Node → Prop where
  /-- There may be none. -/
  | nil : DerivesAll [] []
  /-- A closed statement may stand before others. -/
  | cons {s : Token} {v w : List Token} {n : Node} {ns : List Node} (hv : Derives .statement v n)
      (hs : s.kind = .semicolon) (hw : DerivesAll w ns) : DerivesAll (v ++ s :: w) (n :: ns)

/-- The tokens are a program, and the tree is its tree: at least one closed statement, under a root
on the line of the first token. -/
def DerivesProgram (w : List Token) (tree : SyntaxTree) : Prop :=
  ∃ first ns, w.head? = some first ∧ ns ≠ [] ∧ DerivesAll w ns ∧
    tree = ⟨.program first.line ns⟩

/-- How many parentheses are open at a time at most, counted from the front. -/
def nesting : List Token → Nat
  | [] => 0
  | t :: ts =>
    if t.kind = .openParen then nesting ts + 1
    else if t.kind = .closeParen then nesting ts - 1
    else nesting ts

/-- The tokens before the first sentinel. -/
def beforeEnd (ts : List Token) : List Token := ts.takeWhile fun t => t.kind ≠ .endOfInput

/-! ## Kinds of tokens -/

theorem Tier.kind_of_mem_operators {t : Tier} {k : TokenKind} (h : k ∈ t.operators) :
    k ≠ .openParen ∧ k ≠ .closeParen ∧ k ≠ .endOfInput ∧ k ≠ .semicolon := by
  cases t <;> cases k <;> revert h <;> decide

theorem kind_of_mem_relational {k : TokenKind} (h : k ∈ TokenKind.relational) :
    k ≠ .openParen ∧ k ≠ .closeParen ∧ k ≠ .endOfInput ∧ k ≠ .semicolon := by
  cases k <;> revert h <;> decide

theorem kind_of_mem_literals {k : TokenKind} (h : k ∈ TokenKind.literals) :
    k ≠ .openParen ∧ k ≠ .closeParen ∧ k ≠ .endOfInput ∧ k ≠ .semicolon := by
  cases k <;> revert h <;> decide

/-! ## Nesting -/

@[simp] theorem nesting_nil : nesting [] = 0 := rfl

theorem nesting_open {t : Token} (h : t.kind = .openParen) (ts : List Token) :
    nesting (t :: ts) = nesting ts + 1 := by
  simp [nesting, h]

theorem nesting_close {t : Token} (h : t.kind = .closeParen) (ts : List Token) :
    nesting (t :: ts) = nesting ts - 1 := by
  simp [nesting, h]

theorem nesting_other {t : Token} (ho : t.kind ≠ .openParen) (hc : t.kind ≠ .closeParen)
    (ts : List Token) : nesting (t :: ts) = nesting ts := by
  simp [nesting, ho, hc]

/-- A token of a known kind that is no parenthesis does not count. -/
theorem nesting_sign {t : Token} {k : TokenKind} (h : t.kind = k) (ts : List Token)
    (ho : k ≠ .openParen := by decide) (hc : k ≠ .closeParen := by decide) :
    nesting (t :: ts) = nesting ts :=
  nesting_other (h ▸ ho) (h ▸ hc) ts

/-- The number of tokens of a kind. -/
def countKind (k : TokenKind) (ts : List Token) : Nat := ts.countP fun t => t.kind = k

/-- Counting starts anew behind each token. -/
theorem countKind_cons (k : TokenKind) (t : Token) (ts : List Token) :
    countKind k (t :: ts) = countKind k ts + if t.kind = k then 1 else 0 := by
  unfold countKind
  rw [List.countP_cons]
  simp only [decide_eq_true_eq]

/-- A front part is empty or begins with the first token. -/
theorem forall_prefix_cons {P : List Token → Prop} (hnil : P []) (t : Token) (ts : List Token) :
    (∀ us, us <+: t :: ts → P us) ↔ ∀ us, us <+: ts → P (t :: us) := by
  constructor
  · intro h us hus
    exact h (t :: us) ((List.prefix_cons_inj t).mpr hus)
  · intro h us hus
    rcases List.prefix_cons_iff.mp hus with rfl | ⟨vs, rfl, hvs⟩
    · exact hnil
    · exact h vs hvs

/-- Parentheses nest at most `d` deep if in no front part more than `d` stay open. -/
theorem nesting_le_iff (ts : List Token) (d : Nat) :
    nesting ts ≤ d ↔
      ∀ us, us <+: ts → countKind .openParen us ≤ countKind .closeParen us + d := by
  induction ts generalizing d with
  | nil =>
    constructor
    · intro _ us hus
      rw [List.prefix_nil.mp hus]
      exact Nat.zero_le _
    · intro _
      exact Nat.zero_le d
  | cons t ts ih =>
    rw [forall_prefix_cons (Nat.zero_le _)]
    simp only [countKind_cons]
    -- a parenthesis moves the bound by one; an opening one must fit into it
    by_cases ho : t.kind = .openParen
    · have hc : t.kind ≠ .closeParen := by rw [ho]; decide
      rw [nesting_open ho, if_pos ho, if_neg hc]
      cases d with
      | zero =>
        have hlone : ¬ ∀ us, us <+: ts →
            countKind .openParen us + 1 ≤ countKind .closeParen us + 0 + 0 := fun h =>
          absurd (h [] List.nil_prefix) (by decide)
        exact iff_of_false (Nat.not_succ_le_zero _) hlone
      | succ d =>
        rw [Nat.add_le_add_iff_right, ih]
        exact forall₂_congr fun us _ => by omega
    · by_cases hc : t.kind = .closeParen
      · rw [nesting_close hc, if_neg ho, if_pos hc, Nat.sub_le_iff_le_add, ih]
        exact forall₂_congr fun us _ => by omega
      · rw [nesting_other ho hc, if_neg ho, if_neg hc, ih]
        exact forall₂_congr fun us _ => by omega

/-- Parentheses nest in a front part no deeper than in the whole. -/
theorem nesting_mono {u w : List Token} (h : u <+: w) : nesting u ≤ nesting w := by
  rw [nesting_le_iff]
  exact fun v hv => (nesting_le_iff w _).mp (Nat.le_refl _) v (hv.trans h)

/-- A last token that opens no parenthesis does not count. -/
theorem nesting_concat {t : Token} (ht : t.kind ≠ .openParen) (u : List Token) :
    nesting (u ++ [t]) = nesting u := by
  induction u with
  | nil => by_cases hc : t.kind = .closeParen <;> simp [nesting, ht, hc]
  | cons a u ih => rw [List.cons_append, nesting, nesting, ih]

/-! ## What phrases are made of -/

/-- No phrase contains the sentinel or a semicolon. -/
theorem Derives.kind_ne {p : Phrase} {w : List Token} {n : Node} (h : Derives p w n) :
    ∀ t ∈ w, t.kind ≠ .endOfInput ∧ t.kind ≠ .semicolon := by
  induction h with
  | literal ht =>
    intro t hmem
    rw [List.mem_singleton.mp hmem]
    exact (kind_of_mem_literals ht).2.2
  | parenthesis ho _ hc ih =>
    intro t hmem
    rcases List.mem_cons.mp hmem with rfl | hmem
    · rw [ho]; decide
    · rcases List.mem_append.mp hmem with hmem | hmem
      · exact ih t hmem
      · rw [List.mem_singleton.mp hmem, hc]; decide
  | plain _ ih => exact ih
  | negated hk _ ih =>
    intro t hmem
    rcases List.mem_cons.mp hmem with rfl | hmem
    · rw [hk]; decide
    · exact ih t hmem
  | single _ ih => exact ih
  | joined _ hop _ ihv ihw =>
    intro t hmem
    rcases List.mem_append.mp hmem with hmem | hmem
    · exact ihv t hmem
    · rcases List.mem_cons.mp hmem with rfl | hmem
      · exact (Tier.kind_of_mem_operators hop).2.2
      · exact ihw t hmem
  | uncompared _ ih => exact ih
  | compared _ hop _ ihv ihw =>
    intro t hmem
    rcases List.mem_append.mp hmem with hmem | hmem
    · exact ihv t hmem
    · rcases List.mem_cons.mp hmem with rfl | hmem
      · exact (kind_of_mem_relational hop).2.2
      · exact ihw t hmem
  | bare _ ih => exact ih
  | binding hk hx ha _ ih =>
    intro t hmem
    simp only [List.mem_cons] at hmem
    rcases hmem with rfl | rfl | rfl | hmem
    · rw [hk]; decide
    · rw [hx]; decide
    · rw [ha]; decide
    · exact ih t hmem

theorem Derives.kind_ne_end {p : Phrase} {w : List Token} {n : Node} (h : Derives p w n) :
    ∀ t ∈ w, t.kind ≠ .endOfInput := fun t hmem => (h.kind_ne t hmem).1

theorem DerivesAll.kind_ne_end {w : List Token} {ns : List Node} (h : DerivesAll w ns) :
    ∀ t ∈ w, t.kind ≠ .endOfInput := by
  induction h with
  | nil => simp
  | cons hv hs _ ih =>
    intro t hmem
    rcases List.mem_append.mp hmem with hmem | hmem
    · exact hv.kind_ne_end t hmem
    · rcases List.mem_cons.mp hmem with rfl | hmem
      · rw [hs]; decide
      · exact ih t hmem

/-- Parentheses are balanced inside a phrase: what follows it nests as deep as it does alone. -/
theorem Derives.nesting_append {p : Phrase} {w : List Token} {n : Node} (h : Derives p w n) :
    ∀ v, nesting (w ++ v) = max (nesting w) (nesting v) := by
  induction h with
  | literal ht =>
    intro v
    obtain ⟨ho, hc, -⟩ := kind_of_mem_literals ht
    simp [nesting_other ho hc]
  | parenthesis ho _ hc ih =>
    intro v
    simp only [List.cons_append, List.append_assoc, List.nil_append]
    rw [nesting_open ho, nesting_open ho, ih, ih, nesting_close hc, nesting_close hc, nesting_nil]
    omega
  | plain _ ih => exact ih
  | negated hk _ ih =>
    intro v
    rw [List.cons_append, nesting_sign hk, nesting_sign hk, ih]
  | single _ ih => exact ih
  | joined _ hop _ ihv ihw =>
    intro v
    obtain ⟨ho, hc, -⟩ := Tier.kind_of_mem_operators hop
    rw [List.append_assoc, List.cons_append, ihv, ihv, nesting_other ho hc, nesting_other ho hc, ihw]
    omega
  | uncompared _ ih => exact ih
  | compared _ hop _ ihv ihw =>
    intro v
    obtain ⟨ho, hc, -⟩ := kind_of_mem_relational hop
    rw [List.append_assoc, List.cons_append, ihv, ihv, nesting_other ho hc, nesting_other ho hc, ihw]
    omega
  | bare _ ih => exact ih
  | binding hk hx ha _ ih =>
    intro v
    simp only [List.cons_append]
    rw [nesting_sign hk, nesting_sign hx, nesting_sign ha, ih, nesting_sign hk, nesting_sign hx,
      nesting_sign ha]

/-- A closed statement nests as deep as the statement, and so on through a list of them. -/
theorem nesting_closed {v : List Token} {n : Node} (hv : Derives .statement v n) {s : Token}
    (hs : s.kind = .semicolon) (w : List Token) :
    nesting (v ++ s :: w) = max (nesting v) (nesting w) := by
  rw [hv.nesting_append, nesting_sign hs]

theorem DerivesAll.nesting_append {w : List Token} {ns : List Node} (h : DerivesAll w ns) :
    ∀ v, nesting (w ++ v) = max (nesting w) (nesting v) := by
  induction h with
  | nil => simp
  | cons hv hs _ ih =>
    intro v
    rw [List.append_assoc, List.cons_append, nesting_closed hv hs, nesting_closed hv hs, ih]
    omega

/-- The kinds of tokens that a phrase of the sort begins with. -/
def Phrase.starters : Phrase → List TokenKind
  | .factor => .openParen :: TokenKind.literals
  | .negation | .comparison | .tier _ => .notWord :: .openParen :: TokenKind.literals
  | .statement => .valWord :: .notWord :: .openParen :: TokenKind.literals

/-- A phrase begins with one of its starters. -/
theorem Derives.head {p : Phrase} {w : List Token} {n : Node} (h : Derives p w n) :
    ∃ t ts, w = t :: ts ∧ t.kind ∈ p.starters := by
  induction h with
  | literal ht => exact ⟨_, [], rfl, List.mem_cons_of_mem _ ht⟩
  | parenthesis ho _ _ _ => exact ⟨_, _, rfl, ho ▸ List.mem_cons_self⟩
  | plain _ ih =>
    obtain ⟨t, ts, rfl, ht⟩ := ih
    exact ⟨t, ts, rfl, List.mem_cons_of_mem _ ht⟩
  | negated hk _ _ => exact ⟨_, _, rfl, hk ▸ List.mem_cons_self⟩
  | @single t _ _ _ ih =>
    obtain ⟨k, ts, rfl, hk⟩ := ih
    refine ⟨k, ts, rfl, ?_⟩
    cases t <;> exact hk
  | joined _ _ _ ihv _ =>
    obtain ⟨t, ts, rfl, ht⟩ := ihv
    exact ⟨t, _, List.cons_append, ht⟩
  | uncompared _ ih => exact ih
  | compared _ _ _ ihv _ =>
    obtain ⟨t, ts, rfl, ht⟩ := ihv
    exact ⟨t, _, List.cons_append, ht⟩
  | bare _ ih =>
    obtain ⟨t, ts, rfl, ht⟩ := ih
    exact ⟨t, ts, rfl, List.mem_cons_of_mem _ ht⟩
  | binding hk _ _ _ _ => exact ⟨_, _, rfl, hk ▸ List.mem_cons_self⟩

/-- A phrase does not begin with a kind that is none of its starters. -/
theorem Derives.head_ne {p : Phrase} {w : List Token} {n : Node} (h : Derives p w n) {k : TokenKind}
    (hk : k ∉ p.starters) : ∃ t ts, w = t :: ts ∧ t.kind ∉ [k] := by
  obtain ⟨t, ts, hw, ht⟩ := h.head
  refine ⟨t, ts, hw, fun hmem => ?_⟩
  rw [List.mem_singleton.mp hmem] at ht
  exact hk ht

theorem DerivesAll.ne_nil {w : List Token} {ns : List Node} (h : DerivesAll w ns) (hns : ns ≠ []) :
    w ≠ [] := by
  cases h with
  | nil => exact absurd rfl hns
  | cons _ _ _ => simp

end MflFrontend
