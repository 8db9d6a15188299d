import MflFrontend.Text.Blank
import Mathlib.Data.List.DropRight

/-!
# Removing blanks

What stands behind a character that is no blank can be stripped on its own, and the first such
character of a text is the first of the stripped text.
-/

namespace MflFrontend

theorem stripRight_behind {c : Char} (hc : isBlank c = false) (x y : List Char) :
    stripRight (x ++ c :: y) = x ++ c :: stripRight y := by
  unfold stripRight
  rw [List.reverse_append, List.reverse_cons, List.append_assoc, List.dropWhile_append]
  split
  · next hempty =>
    rw [List.isEmpty_iff.mp hempty, List.singleton_append, List.dropWhile_cons_of_neg (by simp [hc])]
    simp
  · simp

theorem stripRight_blank {y : List Char} (h : ∀ c ∈ y, isBlank c = true) : stripRight y = [] := by
  have hall : y.reverse.dropWhile isBlank = [] := by
    rw [List.dropWhile_eq_nil_iff]
    intro c hc
    exact h c (List.mem_reverse.mp hc)
  rw [stripRight, hall, List.reverse_nil]

theorem stripRight_prefix (y : List Char) : ∃ z, y = stripRight y ++ z := by
  obtain ⟨z, hz⟩ := List.dropWhile_suffix (p := isBlank) (l := y.reverse)
  refine ⟨z.reverse, ?_⟩
  rw [stripRight, ← List.reverse_append, hz, List.reverse_reverse]

/-- A text begins where its blanks end. -/
theorem head?_strip (cs : List Char) : (strip cs).head? = (cs.dropWhile isBlank).head? := by
  unfold strip
  cases h : cs.dropWhile isBlank with
  | nil => rfl
  | cons c rest =>
    have hc : isBlank c = false := by
      have hnot := List.head?_dropWhile_not isBlank cs
      rw [h] at hnot
      simpa using hnot
    rw [← List.nil_append (c :: rest), stripRight_behind hc]
    rfl

/-- Where a text begins does not depend on what follows it. -/
theorem head?_strip_append {x : List Char} {c : Char} (h : (strip x).head? = some c)
    (y : List Char) : (strip (x ++ y)).head? = some c := by
  rw [head?_strip] at h ⊢
  rw [List.dropWhile_append]
  split
  · next hempty =>
    rw [List.isEmpty_iff.mp hempty] at h
    cases h
  · rw [List.head?_append, h]
    rfl

theorem strip_eq_nil_iff {cs : List Char} : strip cs = [] ↔ ∀ c ∈ cs, isBlank c = true := by
  rw [← List.head?_eq_none_iff, head?_strip, List.head?_eq_none_iff, List.dropWhile_eq_nil_iff]

theorem exists_of_strip_ne_nil {cs : List Char} (h : strip cs ≠ []) :
    ∃ x c y, cs = x ++ c :: y ∧ isBlank c = false := by
  rw [ne_eq, strip_eq_nil_iff] at h
  push Not at h
  obtain ⟨c, hc, hblank⟩ := h
  obtain ⟨x, y, hsplit⟩ := List.append_of_mem hc
  exact ⟨x, c, y, hsplit, Bool.eq_false_iff.mpr hblank⟩

/-- Blanks at the end of a text are stripped off. -/
theorem strip_append_blank {y : List Char} (h : ∀ c ∈ y, isBlank c = true) (x : List Char) :
    strip (x ++ y) = strip x := by
  have hright : ∀ z, stripRight (z ++ y) = stripRight z := by
    intro z
    have hall : y.reverse.dropWhile isBlank = [] := by
      rw [List.dropWhile_eq_nil_iff]
      exact fun c hc => h c (List.mem_reverse.mp hc)
    rw [stripRight, List.reverse_append, List.dropWhile_append, hall]
    rfl
  unfold strip
  rw [List.dropWhile_append, List.dropWhile_eq_nil_iff.mpr h]
  split
  · next hempty => rw [List.isEmpty_iff.mp hempty]
  · exact hright _

/-- What stands between two characters that are no blanks is not stripped off. -/
theorem mem_strip_between {a b : Char} (ha : isBlank a = false) (hb : isBlank b = false)
    (x y z : List Char) : ∀ c ∈ y, c ∈ strip (x ++ a :: y ++ b :: z) := by
  intro c hc
  have hleft : (x ++ a :: (y ++ b :: z)).dropWhile isBlank =
      x.dropWhile isBlank ++ a :: (y ++ b :: z) := by
    rw [List.dropWhile_append]
    split
    · next hempty =>
      rw [List.isEmpty_iff.mp hempty, List.dropWhile_cons_of_neg (by simp [ha])]
      rfl
    · rfl
  rw [strip, List.append_assoc, List.cons_append, hleft, ← List.cons_append, ← List.append_assoc,
    stripRight_behind hb]
  simp [hc]

end MflFrontend
