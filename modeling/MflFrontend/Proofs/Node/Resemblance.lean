import MflFrontend.Node.Basic
import Mathlib.Data.List.Forall2

/-!
# Trees that are built alike

Two trees resemble each other if they are built alike from nodes of the same variants with the same
operators. What is asked of the lines of their nodes, of the names that are bound in declaration
form and of the tokens of their leaves are parameters. A tree with a stray resembles none.
-/

namespace MflFrontend

/-- Two lists become the same if what they become agrees one by one. -/
theorem map_eq_map_iff {α β γ : Type} {f : α → γ} {g : β → γ} {R : α → β → Prop} {as : List α}
    {bs : List β} (h : ∀ a ∈ as, ∀ b ∈ bs, f a = g b ↔ R a b) :
    as.map f = bs.map g ↔ List.Forall₂ R as bs := by
  induction as generalizing bs with
  | nil => simp [eq_comm]
  | cons a as ih =>
    cases bs with
    | nil => simp
    | cons b bs =>
      rw [List.map_cons, List.map_cons, List.cons.injEq, List.forall₂_cons,
        h a List.mem_cons_self b List.mem_cons_self,
        ih fun a' ha' b' hb' => h a' (List.mem_cons_of_mem a ha') b' (List.mem_cons_of_mem b hb')]

namespace Node

/-- The trees are built alike, their lines are related by `L`, their bound names by `N` and the
tokens of their leaves by `T`. -/
inductive Resembles (L : Int → Int → Prop) (N T : Token → Token → Prop) : Node → Node → Prop
  | program {k l : Int} {ms ns : List Node} (hline : L k l)
      (h : List.Forall₂ (Resembles L N T) ms ns) :
      Resembles L N T (.program k ms) (.program l ns)
  | binding {k l : Int} {t u : Token} {m n : Node} (hline : L k l) (hname : N t u)
      (h : Resembles L N T m n) : Resembles L N T (.binding k t m) (.binding l u n)
  | binary {k l : Int} {m m' n n' : Node} {op : TokenKind} (hline : L k l)
      (hleft : Resembles L N T m n) (hright : Resembles L N T m' n') :
      Resembles L N T (.binary k m m' op) (.binary l n n' op)
  | relation {k l : Int} {m m' n n' : Node} {op : TokenKind} (hline : L k l)
      (hleft : Resembles L N T m n) (hright : Resembles L N T m' n') :
      Resembles L N T (.relation k m m' op) (.relation l n n' op)
  | unary {k l : Int} {m n : Node} {op : TokenKind} (hline : L k l) (h : Resembles L N T m n) :
      Resembles L N T (.unary k m op) (.unary l n op)
  | leaf {k l : Int} {t u : Token} (hline : L k l) (htoken : T t u) :
      Resembles L N T (.leaf k t) (.leaf l u)

/-- What is asked of the two nodes themselves, whatever their children are. -/
inductive RootsResemble (L : Int → Int → Prop) (N T : Token → Token → Prop) : Node → Node → Prop
  | program {k l : Int} {ms ns : List Node} (hline : L k l) :
      RootsResemble L N T (.program k ms) (.program l ns)
  | binding {k l : Int} {t u : Token} {m n : Node} (hline : L k l) (hname : N t u) :
      RootsResemble L N T (.binding k t m) (.binding l u n)
  | binary {k l : Int} {m m' n n' : Node} {op : TokenKind} (hline : L k l) :
      RootsResemble L N T (.binary k m m' op) (.binary l n n' op)
  | relation {k l : Int} {m m' n n' : Node} {op : TokenKind} (hline : L k l) :
      RootsResemble L N T (.relation k m m' op) (.relation l n n' op)
  | unary {k l : Int} {m n : Node} {op : TokenKind} (hline : L k l) :
      RootsResemble L N T (.unary k m op) (.unary l n op)
  | leaf {k l : Int} {t u : Token} (hline : L k l) (htoken : T t u) :
      RootsResemble L N T (.leaf k t) (.leaf l u)

variable {L : Int → Int → Prop} {N T : Token → Token → Prop} {a b : Node}

/-- Trees resemble each other if their roots do and their children do, one by one. -/
theorem resembles_iff : Resembles L N T a b ↔
    RootsResemble L N T a b ∧ List.Forall₂ (Resembles L N T) a.children b.children := by
  constructor
  · intro h
    cases h with
    | program hline h => exact ⟨.program hline, h⟩
    | binding hline hname h => exact ⟨.binding hline hname, .cons h .nil⟩
    | binary hline hleft hright => exact ⟨.binary hline, .cons hleft (.cons hright .nil)⟩
    | relation hline hleft hright => exact ⟨.relation hline, .cons hleft (.cons hright .nil)⟩
    | unary hline h => exact ⟨.unary hline, .cons h .nil⟩
    | leaf hline htoken => exact ⟨.leaf hline htoken, .nil⟩
  · rintro ⟨hroots, hchildren⟩
    cases hroots with
    | program hline => exact .program hline hchildren
    | binding hline hname =>
      obtain ⟨h, -⟩ := List.forall₂_cons.mp hchildren
      exact .binding hline hname h
    | binary hline =>
      obtain ⟨hleft, hrest⟩ := List.forall₂_cons.mp hchildren
      exact .binary hline hleft (List.forall₂_cons.mp hrest).1
    | relation hline =>
      obtain ⟨hleft, hrest⟩ := List.forall₂_cons.mp hchildren
      exact .relation hline hleft (List.forall₂_cons.mp hrest).1
    | unary hline => exact .unary hline (List.forall₂_cons.mp hchildren).1
    | leaf hline htoken => exact .leaf hline htoken

end Node

end MflFrontend
