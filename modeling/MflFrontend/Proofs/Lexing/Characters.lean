import MflFrontend.Proofs.Lexing.Factors
import MflFrontend.Text.Blank

/-!
# Classes of characters

The characters that lexemes are made of, and those that trivia begin with. All of the former are
printing characters of ASCII, so none of them is blank in any sense. Ranges are compared once as
codes.
-/

namespace MflFrontend

/-! ## Codes -/

theorem code_of_isDigit {c : Char} (h : c.isDigit = true) : 0x30 ≤ c.toNat ∧ c.toNat ≤ 0x39 := by
  unfold Char.isDigit at h
  simp only [Bool.and_eq_true, decide_eq_true_eq, UInt32.le_iff_toNat_le, ge_iff_le] at h
  exact h

theorem code_of_isWordStart {c : Char} (h : isWordStart c = true) :
    0x41 ≤ c.toNat ∧ c.toNat ≤ 0x7a := by
  unfold isWordStart Char.isAlpha Char.isUpper Char.isLower at h
  simp only [Bool.or_eq_true, Bool.and_eq_true, decide_eq_true_eq, UInt32.le_iff_toNat_le, ge_iff_le,
    beq_iff_eq] at h
  change c = '_' ∨ (0x41 ≤ c.toNat ∧ c.toNat ≤ 0x5a) ∨ (0x61 ≤ c.toNat ∧ c.toNat ≤ 0x7a) at h
  rcases h with rfl | h | h
  · decide
  · omega
  · omega

/-- No digit starts a word. -/
theorem isWordStart_of_isDigit {c : Char} (h : c.isDigit = true) : isWordStart c = false := by
  have hdigit := code_of_isDigit h
  rw [← Bool.not_eq_true]
  intro hstart
  have hword := code_of_isWordStart hstart
  omega

theorem isWordPart_of_isDigit {c : Char} (h : c.isDigit = true) : isWordPart c = true := by
  unfold isWordPart
  rw [h, Bool.or_true]

theorem isWordPart_of_isWordStart {c : Char} (h : isWordStart c = true) : isWordPart c = true := by
  unfold isWordPart
  rw [h, Bool.true_or]

theorem code_of_isWordPart {c : Char} (h : isWordPart c = true) :
    0x30 ≤ c.toNat ∧ c.toNat ≤ 0x7a := by
  unfold isWordPart at h
  rcases Bool.or_eq_true _ _ ▸ h with hstart | hdigit
  · have hcode := code_of_isWordStart hstart
    omega
  · have hcode := code_of_isDigit hdigit
    omega

/-- The printing characters of ASCII are no blanks. -/
theorem isBlank_of_printing {c : Char} (h : 0x21 ≤ c.toNat) (h' : c.toNat ≤ 0x7e) :
    isBlank c = false := by
  unfold isBlank
  simp only [Bool.or_eq_false_iff, Bool.and_eq_false_iff, decide_eq_false_iff_not, beq_eq_false_iff_ne]
  omega

/-! ## Trivia -/

theorem isTriviaBlank_iff (c : Char) :
    isTriviaBlank c = true ↔ c = ' ' ∨ c = '\t' ∨ c = '\r' ∨ c = '\n' := by
  unfold isTriviaBlank
  simp [or_assoc]

theorem isBlank_of_isTriviaBlank {c : Char} (h : isTriviaBlank c = true) : isBlank c = true := by
  rcases (isTriviaBlank_iff c).mp h with rfl | rfl | rfl | rfl
  all_goals decide

theorem isBlank_sharp : isBlank '#' = false := by decide

/-- A character that trivia begin with. -/
def OpensTrivia (c : Char) : Prop := isTriviaBlank c = true ∨ c = '#'

theorem OpensTrivia.feed : OpensTrivia '\n' := .inl rfl

/-- No lexeme goes on with what trivia begin with. -/
theorem OpensTrivia.stops {c : Char} (h : OpensTrivia c) :
    isWordPart c = false ∧ c.isDigit = false ∧ c ≠ '.' ∧ c ≠ '=' := by
  rcases h with h | rfl
  · rcases (isTriviaBlank_iff c).mp h with rfl | rfl | rfl | rfl
    all_goals decide
  · decide

/-! ## Lexemes -/

/-- A sign begins neither as a word nor as a number. -/
theorem head_of_sign {c : Char} {cs : List Char} {k : TokenKind}
    (h : (c :: cs, k) ∈ TokenKind.signs) : isWordStart c = false ∧ c.isDigit = false := by
  have hall : ∀ e ∈ TokenKind.signs,
      e.1.head?.map (fun c => (isWordStart c, c.isDigit)) = some (false, false) := by decide
  have hhead := hall _ h
  simpa using hhead

theorem IsWord.parts {l : List Char} (h : IsWord l) : ∀ c ∈ l, isWordPart c = true := by
  obtain ⟨a, as, rfl, ha, has⟩ := h
  exact List.forall_mem_cons.mpr ⟨isWordPart_of_isWordStart ha, has⟩

theorem IsDigits.parts {l : List Char} (h : IsDigits l) : ∀ c ∈ l, isWordPart c = true :=
  fun c hc => isWordPart_of_isDigit (h.2 c hc)

/-- The characters that lexemes are made of. -/
theorem IsLexeme.mem_cases {l : List Char} (h : IsLexeme l) {c : Char} (hc : c ∈ l) :
    isWordPart c = true ∨ c = '.' ∨ ∃ e ∈ TokenKind.signs, c ∈ e.1 := by
  cases h with
  | word h => exact .inl (h.parts c hc)
  | integer h => exact .inl (h.parts c hc)
  | real h =>
    obtain ⟨a, b, ha, hb, rfl⟩ := h
    rcases List.mem_append.mp hc with hc | hc
    · exact .inl (ha.parts c hc)
    · rcases List.mem_cons.mp hc with rfl | hc
      · exact .inr (.inl rfl)
      · exact .inl (hb.parts c hc)
  | sign h => exact .inr (.inr ⟨_, h, hc⟩)

/-- No character of a lexeme is blank or opens a comment. -/
theorem IsLexeme.char {l : List Char} (h : IsLexeme l) {c : Char} (hc : c ∈ l) :
    isBlank c = false ∧ c ≠ '#' := by
  rcases h.mem_cases hc with hc | rfl | ⟨e, he, hc⟩
  · obtain ⟨hlow, hhigh⟩ := code_of_isWordPart hc
    refine ⟨isBlank_of_printing (by omega) (by omega), ?_⟩
    rintro rfl
    exact absurd hlow (by decide)
  · decide
  · have hall : ∀ e ∈ TokenKind.signs, ∀ c ∈ e.1,
        0x21 ≤ c.toNat ∧ c.toNat ≤ 0x7e ∧ c ≠ '#' := by simp [TokenKind.signs]
    obtain ⟨hlow, hhigh, hsharp⟩ := hall e he c hc
    exact ⟨isBlank_of_printing hlow hhigh, hsharp⟩

theorem IsLexeme.not_opensTrivia {l : List Char} (h : IsLexeme l) {c : Char} (hc : c ∈ l) :
    ¬ OpensTrivia c := by
  obtain ⟨hblank, hsharp⟩ := h.char hc
  rintro (htrivia | rfl)
  · rw [isBlank_of_isTriviaBlank htrivia] at hblank
    cases hblank
  · exact hsharp rfl

end MflFrontend
