import MflFrontend.Proofs.Decimal.Notation
import MflFrontend.Proofs.Lexing.Respacing
import MflFrontend.Proofs.Text.Quoted

/-!
# What is shown of a token

A token is shown on one line, and no two tokens are shown alike unless they are alike: of one kind
with the same value. Integers are shown with digits and at most a sign, doubles with at least one
character more than that, texts between quotes and truth values as words.
-/

namespace MflFrontend

namespace Value

variable {v w : Value}

/-- Whether the value is shown as a number. -/
def isNumber : Value → Bool
  | int _ => true
  | real _ => true
  | _ => false

theorem mem_display_of_isNumber (hv : v.isNumber = true) {c : Char} (hc : c ∈ v.display.toList) :
    isNumberChar c = true ∨ c ∈ ['i', 'n', 'f'] := by
  cases v with
  | int n =>
    rw [display, integerText, String.toList_ofList] at hc
    rcases mem_integerDigits hc with hdigit | rfl
    · exact .inl (isNumberChar_of_isDigit hdigit)
    · exact .inl rfl
  | real d => exact Double.mem_text hc
  | _ => cases hv

/-- What is not shown as a number has a character that numbers are not shown with. -/
theorem exists_mem_display (hv : v.isNumber = false) :
    ∃ c ∈ v.display.toList, isNumberChar c = false ∧ c ∉ ['i', 'n', 'f'] := by
  cases v with
  | none => exact ⟨'N', by simp [display], rfl, by decide⟩
  | bool b =>
    cases b with
    | true => exact ⟨'T', by simp [display], rfl, by decide⟩
    | false => exact ⟨'F', by simp [display], rfl, by decide⟩
  | text s =>
    refine ⟨quoteFor s.toList, by simp [display, quoted], ?_⟩
    rcases quoteFor_cases s.toList with h | h <;> rw [h] <;> decide
  | _ => cases hv

theorem isNumber_eq_of_display (h : v.display = w.display) : v.isNumber = w.isNumber := by
  have honly : ∀ {v w : Value}, v.display = w.display → v.isNumber = true → w.isNumber = true := by
    intro v w h hv
    cases hw : w.isNumber with
    | true => rfl
    | false =>
      obtain ⟨c, hc, hnumber, hword⟩ := exists_mem_display hw
      rcases mem_display_of_isNumber hv (h ▸ hc) with hchar | hchar
      · rw [hnumber] at hchar
        cases hchar
      · exact absurd hchar hword
  exact Bool.eq_iff_iff.mpr ⟨honly h, honly h.symm⟩

theorem int_display_injective {m n : Int} (h : (int m).display = (int n).display) : m = n := by
  have hread := integerOfChars?_integerDigits m
  rw [String.ofList_injective h, integerOfChars?_integerDigits] at hread
  exact (Option.some.inj hread).symm

theorem int_display_ne_real (n : Int) (d : Double) : (int n).display ≠ (real d).display := by
  intro h
  obtain ⟨c, hc, hdigit, hminus⟩ := d.exists_mark
  have hinteger : c ∈ (int n).display.toList := by
    rw [h]
    exact hc
  rw [display, integerText, String.toList_ofList] at hinteger
  rcases mem_integerDigits hinteger with h | h
  · rw [hdigit] at h
    cases h
  · exact hminus h

/-- A quote opens no word. -/
theorem bool_display_ne_text (b : Bool) (s : String) : (bool b).display ≠ (text s).display := by
  intro h
  have hhead : ∀ c, (bool b).display.toList.head? = some c → c ≠ quoteFor s.toList := by
    intro c hc
    cases b <;> cases hc <;> rcases quoteFor_cases s.toList with h | h <;> rw [h] <;> decide
  refine hhead _ ?_ rfl
  rw [h, display, String.toList_ofList]
  rfl

/-- Different values are shown differently. -/
theorem display_injective (hv : v ≠ none) (hw : w ≠ none) (h : v.display = w.display) : v = w := by
  have hnumber := isNumber_eq_of_display h
  cases v with
  | none => exact absurd rfl hv
  | bool b =>
    cases w with
    | bool b' => cases b <;> cases b' <;> first | rfl | exact absurd h (by decide)
    | text s => exact absurd h (bool_display_ne_text b s)
    | none => exact absurd rfl hw
    | _ => cases hnumber
  | int m =>
    cases w with
    | int n => rw [int_display_injective h]
    | real d => exact absurd h (int_display_ne_real m d)
    | _ => cases hnumber
  | real d =>
    cases w with
    | int n => exact absurd h.symm (int_display_ne_real n d)
    | real e => rw [Double.text_injective h]
    | _ => cases hnumber
  | text s =>
    cases w with
    | bool b => exact absurd h.symm (bool_display_ne_text b s)
    | text t =>
      have htext := quoted_injective (String.ofList_injective h)
      rw [String.toList_injective htext]
    | none => exact absurd rfl hw
    | _ => cases hnumber

theorem feed_not_mem_display (v : Value) : '\n' ∉ v.display.toList := by
  intro h
  cases hv : v.isNumber with
  | true =>
    rcases mem_display_of_isNumber hv h with hchar | hchar
    · cases hchar
    · exact absurd hchar (by decide)
  | false =>
    cases v with
    | none => simp [display] at h
    | bool b => cases b <;> simp [display] at h
    | text s =>
      rw [display, String.toList_ofList] at h
      exact feed_not_mem_quoted _ h
    | _ => cases hv

end Value

namespace Token

/-- What is shown of a token behind its kind. -/
def displayedValue : Value → String
  | .none => ")"
  | v => ", " ++ v.display ++ ")"

theorem display_eq (t : Token) :
    t.display = "Token(" ++ (t.kind.name ++ displayedValue t.value) := by
  unfold display
  cases t.value <;> simp [displayedValue, String.append_assoc]

theorem isUpper_of_mem_name (k : TokenKind) : ∀ c ∈ k.name.toList, c.isUpper = true := by
  cases k <;> simp [TokenKind.name]

theorem displayedValue_head (v : Value) : ∀ c, (displayedValue v).toList.head? = some c →
    c.isUpper = false := by
  intro c hc
  cases v <;> simp [displayedValue] at hc <;> subst hc <;> rfl

theorem displayedValue_injective {v w : Value} (h : displayedValue v = displayedValue w) :
    v = w := by
  have hshown : ∀ {v : Value}, v ≠ .none → displayedValue v = ", " ++ v.display ++ ")" := by
    intro v hv
    cases v <;> first | rfl | exact absurd rfl hv
  have hcomma : ∀ {w : Value}, w ≠ .none → displayedValue .none ≠ displayedValue w := by
    intro w hw h
    rw [hshown hw] at h
    exact absurd (congrArg (·.toList.head?) h) (by simp [displayedValue])
  by_cases hv : v = .none
  · by_cases hw : w = .none
    · rw [hv, hw]
    · exact absurd (hv ▸ h) (hcomma hw)
  · by_cases hw : w = .none
    · exact absurd (hw ▸ h).symm (hcomma hv)
    · rw [hshown hv, hshown hw] at h
      have hlists := congrArg String.toList h
      simp only [String.toList_append, List.append_assoc] at hlists
      refine Value.display_injective hv hw (String.toList_injective ?_)
      exact List.append_cancel_right (List.append_cancel_left hlists)

/-- What is shown of a token tells all but its place. -/
theorem display_eq_iff {t u : Token} : t.display = u.display ↔ t.Alike u := by
  constructor
  · intro h
    rw [display_eq, display_eq] at h
    have hlists := congrArg String.toList h
    simp only [String.toList_append] at hlists
    have hrest := congrArg (List.span Char.isUpper) (List.append_cancel_left hlists)
    rw [span_exact (isUpper_of_mem_name t.kind) (displayedValue_head t.value),
      span_exact (isUpper_of_mem_name u.kind) (displayedValue_head u.value)] at hrest
    obtain ⟨hname, hvalue⟩ := Prod.mk.inj hrest
    exact ⟨TokenKind.name_inj.mp (String.toList_injective hname),
      displayedValue_injective (String.toList_injective hvalue)⟩
  · rintro ⟨hkind, hvalue⟩
    rw [display_eq, display_eq, hkind, hvalue]

/-- A token is shown on one line. -/
theorem feed_not_mem_display (t : Token) : '\n' ∉ t.display.toList := by
  have hname : '\n' ∉ t.kind.name.toList := fun h => by
    cases isUpper_of_mem_name t.kind _ h
  have hvalue := t.value.feed_not_mem_display
  rw [display_eq]
  cases hv : t.value <;> rw [hv] at hvalue <;> simp [displayedValue, hname, hvalue]

end Token

end MflFrontend
