import MflFrontend.Proofs.Lexing.Respacing
import MflFrontend.Proofs.Text.Blank

/-!
# Blanks and lexemes

The blanks that are stripped off a text are more than those of the language. In a text that becomes
tokens the others stand in comments alone, so that nothing but trivia is stripped off, and the same
lexemes are read from what is left: no character of a lexeme is blank or opens a comment.
-/

namespace MflFrontend

/-! ## Trivia -/

/-- Trivia without the blanks in front are trivia that begin with a comment, if there are any. -/
theorem Trivia.dropBlanks {w rest : List Char} (h : Trivia w rest) :
    Trivia (w.dropWhile isBlank) rest ∧ ∀ c, (w.dropWhile isBlank).head? = some c → c = '#' := by
  induction h with
  | nil => exact ⟨.nil, nofun⟩
  | blank hc _ ih =>
    rw [List.dropWhile_cons_of_pos (isBlank_of_isTriviaBlank hc)]
    exact ih
  | comment hbody hend hw _ =>
    rw [List.dropWhile_cons_of_neg (by rw [isBlank_sharp]; decide)]
    exact ⟨.comment hbody hend hw, fun c hc => (Option.some.inj hc).symm⟩

/-- Up to the first comment, trivia are blank. -/
theorem Trivia.blank_before_comment {w rest : List Char} (h : Trivia w rest) :
    ∀ c ∈ w.takeWhile (· != '#'), isBlank c = true := by
  induction h with
  | nil => exact fun c hc => absurd hc List.not_mem_nil
  | @blank c w rest hc _ ih =>
    have hne : c ≠ '#' := by
      rintro rfl
      exact absurd hc (by decide)
    rw [List.takeWhile_cons_of_pos (by simpa using hne)]
    exact List.forall_mem_cons.mpr ⟨isBlank_of_isTriviaBlank hc, ih⟩
  | comment _ _ _ _ =>
    rw [List.takeWhile_cons_of_neg (by decide)]
    exact fun c hc => absurd hc List.not_mem_nil

/-- On one line, trivia before something else are no comments. -/
theorem Trivia.no_comment {w rest : List Char} (h : Trivia w rest) (hrest : rest ≠ [])
    (hfeed : '\n' ∉ w ++ rest) : '#' ∉ w := by
  induction h with
  | nil => exact List.not_mem_nil
  | @blank c w rest hc _ ih =>
    rw [List.cons_append] at hfeed
    rw [List.mem_cons]
    rintro (rfl | hmem)
    · exact absurd hc (by decide)
    · exact ih hrest (List.not_mem_of_not_mem_cons hfeed) hmem
  | @comment body w rest _ hend _ _ =>
    obtain ⟨c, cs, hsplit⟩ := List.exists_cons_of_ne_nil (List.append_ne_nil_of_right_ne_nil w hrest)
    have hc : c = '\n' := hend c (by rw [hsplit]; rfl)
    refine absurd ?_ hfeed
    rw [List.cons_append, List.append_assoc, hsplit, hc]
    simp

/-- A front part of trivia at the end of a text is trivia there. -/
theorem Trivia.of_append {w x : List Char} (h : Trivia (w ++ x) []) : Trivia w [] := by
  generalize hv : w ++ x = v at h
  generalize hrest : ([] : List Char) = rest at h
  induction h generalizing w with
  | nil =>
    rw [(List.append_eq_nil_iff.mp hv).1]
    exact .nil
  | @blank c v rest hc _ ih =>
    cases w with
    | nil => exact .nil
    | cons a w =>
      injection hv with ha hv
      exact .blank (ha ▸ hc) (ih hv hrest)
  | @comment body v rest hbody hend _ ih =>
    subst hrest
    cases w with
    | nil => exact .nil
    | cons a w =>
      injection hv with ha hv
      subst ha
      -- the front part ends inside the comment, or goes on behind it
      rcases List.append_eq_append_iff.mp hv with ⟨bs, rfl, -⟩ | ⟨us, rfl, rfl⟩
      · have hw : Trivia ('#' :: (w ++ [])) [] :=
          .comment (fun c hc => hbody c (List.mem_append_left _ hc)) nofun .nil
        rwa [List.append_nil] at hw
      · refine .comment hbody (fun c hc => hend c ?_) (ih rfl rfl)
        cases us with
        | nil => cases hc
        | cons => exact hc

/-! ## Factors -/

/-- Factors stay the same without the blanks at the end of the text. -/
theorem Factors.stripRight {text last : List Char} {fs : List Factor} (h : Factors text fs last) :
    Factors (stripRight text) fs (stripRight last) := by
  induction h with
  | nil => exact .nil
  | @cons gap l rest last fs hgap hl hsep _ ih =>
    obtain ⟨l', c, rfl⟩ := (List.eq_nil_or_concat l).resolve_left hl.ne_nil
    have hc : isBlank c = false := (hl.char (by simp)).1
    have hstrip : MflFrontend.stripRight (gap ++ (l'.concat c ++ rest)) =
        gap ++ (l'.concat c ++ MflFrontend.stripRight rest) := by
      have hbehind := stripRight_behind hc (gap ++ l') rest
      simpa using hbehind
    obtain ⟨z, hz⟩ := stripRight_prefix rest
    have hsep' : Separated (l'.concat c) (MflFrontend.stripRight rest) := by
      refine hsep.change fun a ha => .inr ?_
      rw [hz, List.head?_append, ha]
      rfl
    rw [hstrip]
    exact .cons (hgap.behind hl.ne_nil _) hl hsep' ih

/-- The lexemes stay the same without the blanks in front of the text. -/
theorem Factors.dropBlanks {gap l text last : List Char} {fs : List Factor}
    (h : Factors text (⟨gap, l⟩ :: fs) last) :
    Factors (text.dropWhile isBlank) (⟨gap.dropWhile isBlank, l⟩ :: fs) last := by
  generalize hfactors : (⟨gap, l⟩ : Factor) :: fs = gs at h
  cases h with
  | nil => cases hfactors
  | @cons gap' l' rest _ fs' hgap hl hsep hfs =>
    injection hfactors with hfactor hfs'
    injection hfactor with hgap' hl'
    subst hgap' hl' hfs'
    obtain ⟨c, l, rfl⟩ := List.exists_cons_of_ne_nil hl.ne_nil
    have hc : isBlank c = false := (hl.char List.mem_cons_self).1
    have hdrop : (gap ++ (c :: l ++ rest)).dropWhile isBlank =
        gap.dropWhile isBlank ++ (c :: l ++ rest) := by
      rw [List.dropWhile_append]
      split
      · next hempty =>
        rw [List.isEmpty_iff.mp hempty, List.cons_append,
          List.dropWhile_cons_of_neg (by rw [hc]; decide), List.nil_append]
      · rfl
    rw [hdrop]
    exact .cons hgap.dropBlanks.1 hl hsep hfs

end MflFrontend
