import MflFrontend.Proofs.Grammar.Stepping

/-!
# Laws that every step keeps

A law says how the state behind a step relates to the one before it, once for the steps that succeed
and once for those that fail. If a law allows to stand still and to do one thing after another, then
all readers keep it as soon as three primitive steps do: looking at the current token, moving on, and
rejecting. The readers reject with complaints on one line only.
-/

namespace MflFrontend.Complaint

/-- The wording of the complaint has no line feed. -/
class OneLine (complaint : Complaint) : Prop where
  /-- No character of it is one. -/
  feed_not_mem : '\n' ∉ complaint.describe.toList

instance : OneLine (.expected .value) := ⟨by decide⟩

instance : OneLine (.expected .boundName) := ⟨by decide⟩

instance : OneLine (.expected .assignSign) := ⟨by decide⟩

instance : OneLine (.expected .semicolon) := ⟨by decide⟩

instance : OneLine (.expected .closeParen) := ⟨by decide⟩

instance : OneLine (.expected .endOfInput) := ⟨by decide⟩

instance : OneLine .nestedTooDeeply := ⟨by decide⟩

end MflFrontend.Complaint

namespace MflFrontend.Parse

variable {α β : Type}

/-- How the state behind a step relates to the one before it. -/
structure Law where
  /-- What a step may do that succeeds. -/
  good : ParseState → ParseState → Prop
  /-- What a step may do that fails. -/
  bad : ParseState → Failure → ParseState → Prop
  /-- A step may stand still. -/
  refl : ∀ s, good s s
  /-- Steps may follow each other. -/
  trans : ∀ {s s₁ s₂}, good s s₁ → good s₁ s₂ → good s s₂
  /-- A step may fail behind others. -/
  trans_bad : ∀ {s s₁ failure s₂}, good s s₁ → bad s₁ failure s₂ → bad s failure s₂

/-- From every state, the step does what the law allows. -/
class Obeys (law : Law) (m : Parse α) : Prop where
  /-- What the step comes to is allowed. -/
  yields : ∀ s, m.Yields s (fun _ => law.good s) (law.bad s)

/-- The primitive steps obey the law. -/
class Law.Primitive (law : Law) : Prop where
  /-- Looking at the current token. -/
  current : Obeys law Parse.current
  /-- Moving on. -/
  skip : Obeys law Parse.skip
  /-- Rejecting the current token. -/
  reject : ∀ {α : Type} (complaint : Complaint) [complaint.OneLine],
    Obeys law (Parse.reject complaint : Parse α)

namespace Obeys

variable {law : Law}

attribute [instance] Law.Primitive.current Law.Primitive.skip Law.Primitive.reject

instance pure (a : α) : Obeys law (Pure.pure a : Parse α) :=
  ⟨fun s => Yields.of_ok (u := s) rfl (law.refl s)⟩

instance bind (m : Parse α) (k : α → Parse β) [hm : Obeys law m] [hk : ∀ a, Obeys law (k a)] :
    Obeys law (m >>= k) := by
  constructor
  intro s
  refine Yields.bind (hm.yields s) (fun _ _ h => h) fun a s₁ hs₁ => ?_
  exact ((hk a).yields s₁).mono (fun _ _ h => law.trans hs₁ h) fun _ _ h => law.trans_bad hs₁ h

instance ite (c : Prop) [Decidable c] (m m' : Parse α) [hm : Obeys law m] [hm' : Obeys law m'] :
    Obeys law (if c then m else m') := by
  split
  · exact hm
  · exact hm'

instance currentLine : Obeys law Parse.currentLine :=
  ⟨fun s => Yields.of_ok (u := s) rfl (law.refl s)⟩

instance ahead : Obeys law Parse.ahead := ⟨fun s => Yields.of_ok (u := s) rfl (law.refl s)⟩

variable [law.Primitive]

instance currentIs (kinds : List TokenKind) : Obeys law (Parse.currentIs kinds) := by
  unfold Parse.currentIs
  infer_instance

instance expect (kind : TokenKind) (what : Expectation) [(Complaint.expected what).OneLine] :
    Obeys law (Parse.expect kind what) := by
  unfold Parse.expect
  infer_instance

instance skipWithin (room : Nat) : Obeys law (Parse.skipWithin room) := by
  constructor
  intro s
  have hskip : Obeys law Parse.skip := inferInstance
  have hreject : Obeys law (Parse.reject .nestedTooDeeply : Parse Unit) := inferInstance
  unfold Yields
  rcases Nat.lt_or_ge room s.source.pull.frames with h | h
  · rw [skipWithin_of_lt h]
    exact hreject.yields s
  · rw [skipWithin_of_le h]
    exact hskip.yields s

/-! ## Tiers -/

instance operands (ops : List TokenKind) (operand : Parse Node) [Obeys law operand]
    (rounds : List Pull) (left : Node) : Obeys law (Parse.operands ops operand rounds left) := by
  induction rounds generalizing left with
  | nil => exact pure left
  | cons round rounds ih =>
    unfold Parse.operands
    infer_instance

instance tier (ops : List TokenKind) (operand : Parse Node) [Obeys law operand] :
    Obeys law (Parse.tier ops operand) := by
  unfold Parse.tier
  infer_instance

instance negationOf (room : Nat) (factor : Parse Node) [Obeys law factor] :
    Obeys law (Parse.negationOf room factor) := by
  unfold Parse.negationOf
  infer_instance

instance productOf (room : Nat) (factor : Parse Node) [Obeys law factor] :
    Obeys law (Parse.productOf room factor) := by
  unfold Parse.productOf
  infer_instance

instance sumOf (room : Nat) (factor : Parse Node) [Obeys law factor] :
    Obeys law (Parse.sumOf room factor) := by
  unfold Parse.sumOf
  infer_instance

instance comparisonFrom (room : Nat) (factor : Parse Node) [Obeys law factor] (left : Node) :
    Obeys law (Parse.comparisonFrom room factor left) := by
  unfold Parse.comparisonFrom
  infer_instance

instance comparisonOf (room : Nat) (outer inner : Parse Node) [Obeys law outer] [Obeys law inner] :
    Obeys law (Parse.comparisonOf room outer inner) := by
  unfold Parse.comparisonOf
  infer_instance

instance expressionOf (room : Nat) (outer inner : Parse Node) [Obeys law outer] [Obeys law inner] :
    Obeys law (Parse.expressionOf room outer inner) := by
  unfold Parse.expressionOf
  infer_instance

set_option synthInstance.maxSize 256 in
instance factorWith (room : Nat) (expression : Parse Node) [Obeys law expression] :
    Obeys law (Parse.factorWith room expression) := by
  unfold Parse.factorWith
  infer_instance

instance factor (room : Nat) : Obeys law (Parse.factor room) := by
  induction room using Parse.factor.induct with
  | case1 room outer inner =>
    rw [Parse.factor]
    infer_instance
  | case2 room hroom =>
    rw [Parse.factor]
    · infer_instance
    · exact hroom

instance expression (d : Nat) : Obeys law (Parse.expression d) := by
  unfold Parse.expression
  infer_instance

/-! ## Statements -/

instance statement (d : Nat) : Obeys law (Parse.statement d) := by
  unfold Parse.statement
  infer_instance

instance closedStatement (d : Nat) : Obeys law (Parse.closedStatement d) := by
  unfold Parse.closedStatement
  infer_instance

instance statements (d : Nat) (rounds : List Pull) : Obeys law (Parse.statements d rounds) := by
  induction rounds with
  | nil => exact pure []
  | cons round rounds ih =>
    unfold Parse.statements
    infer_instance

instance programStatements (d : Nat) : Obeys law (Parse.programStatements d) := by
  unfold Parse.programStatements
  infer_instance

end Obeys

end MflFrontend.Parse
