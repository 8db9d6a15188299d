import MflFrontend.Node.Agreement
import Mathlib.Data.List.Forall2

/-!
# Trees that are the same up to lines

Two nodes match if they hold the same themselves, whatever their children are. Trees coincide if they
are built alike from nodes that match; they have the same operators and tokens with equal keys, and
only the lines of nodes can differ.
-/

namespace MflFrontend

namespace Node

/-- What the two nodes hold themselves is the same: their variant, their own fields and the number
of their children. -/
def Matches (a b : Node) : Prop :=
  a.variant = b.variant ∧ a.ownKey = b.ownKey ∧ a.children.length = b.children.length

instance (a b : Node) : Decidable (a.Matches b) := inferInstanceAs (Decidable (_ ∧ _ ∧ _))

theorem Matches.symm {a b : Node} (h : a.Matches b) : b.Matches a :=
  ⟨h.1.symm, h.2.1.symm, h.2.2.symm⟩

/-- The trees are the same up to the lines of their nodes, and no node of them is a stray. -/
inductive Coincides : Node → Node → Prop
  | program {k l : Int} {ms ns : List Node} (h : List.Forall₂ Coincides ms ns) :
      Coincides (.program k ms) (.program l ns)
  | binding {k l : Int} {t u : Token} {m n : Node} (hname : t.key = u.key) (h : Coincides m n) :
      Coincides (.binding k t m) (.binding l u n)
  | binary {k l : Int} {m m' n n' : Node} {op : TokenKind} (hleft : Coincides m n)
      (hright : Coincides m' n') : Coincides (.binary k m m' op) (.binary l n n' op)
  | relation {k l : Int} {m m' n n' : Node} {op : TokenKind} (hleft : Coincides m n)
      (hright : Coincides m' n') : Coincides (.relation k m m' op) (.relation l n n' op)
  | unary {k l : Int} {m n : Node} {op : TokenKind} (h : Coincides m n) :
      Coincides (.unary k m op) (.unary l n op)
  | leaf {k l : Int} {t u : Token} (htoken : t.key = u.key) : Coincides (.leaf k t) (.leaf l u)

theorem Coincides.parts {a b : Node} (h : Coincides a b) :
    a.Matches b ∧ (∃ key, a.ownKey = .ok key) ∧ List.Forall₂ Coincides a.children b.children := by
  cases h with
  | program h => exact ⟨⟨rfl, rfl, h.length_eq⟩, ⟨_, rfl⟩, h⟩
  | binding hname h =>
    exact ⟨⟨rfl, congrArg (Except.ok ∘ OwnKey.token) hname, rfl⟩, ⟨_, rfl⟩, .cons h .nil⟩
  | binary hleft hright => exact ⟨⟨rfl, rfl, rfl⟩, ⟨_, rfl⟩, .cons hleft (.cons hright .nil)⟩
  | relation hleft hright => exact ⟨⟨rfl, rfl, rfl⟩, ⟨_, rfl⟩, .cons hleft (.cons hright .nil)⟩
  | unary h => exact ⟨⟨rfl, rfl, rfl⟩, ⟨_, rfl⟩, .cons h .nil⟩
  | leaf htoken => exact ⟨⟨rfl, congrArg (Except.ok ∘ OwnKey.token) htoken, rfl⟩, ⟨_, rfl⟩, .nil⟩

theorem coincides_of_parts {a b : Node} {key : OwnKey} (hmatches : a.Matches b)
    (hkey : a.ownKey = .ok key) (h : List.Forall₂ Coincides a.children b.children) :
    Coincides a b := by
  obtain ⟨hvariant, hown, -⟩ := hmatches
  -- of the pairs of constructors, those of two variants are ruled out at once
  cases a <;> cases b <;> cases hvariant
  case program.program.refl => exact .program h
  case binding.binding.refl =>
    cases h with
    | cons h _ => exact .binding (OwnKey.token.inj (Except.ok.inj hown)) h
  case binary.binary.refl =>
    cases hown
    cases h with
    | cons hleft h =>
      cases h with
      | cons hright _ => exact .binary hleft hright
  case relation.relation.refl =>
    cases hown
    cases h with
    | cons hleft h =>
      cases h with
      | cons hright _ => exact .relation hleft hright
  case unary.unary.refl =>
    cases hown
    cases h with
    | cons h _ => exact .unary h
  case leaf.leaf.refl => exact .leaf (OwnKey.token.inj (Except.ok.inj hown))
  case stray.stray.refl => cases hkey

/-- Trees coincide if their roots match and their children do. -/
theorem coincides_iff {a b : Node} : Coincides a b ↔
    a.Matches b ∧ (∃ key, a.ownKey = .ok key) ∧ List.Forall₂ Coincides a.children b.children := by
  constructor
  · exact Coincides.parts
  · rintro ⟨hmatches, ⟨key, hkey⟩, h⟩
    exact coincides_of_parts hmatches hkey h

end Node

end MflFrontend
