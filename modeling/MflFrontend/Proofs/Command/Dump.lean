import MflFrontend.Command.Run
import MflFrontend.Proofs.Grammar.Respacing
import MflFrontend.Proofs.Lexing.Gaps
import MflFrontend.Proofs.Text.Quoted

/-!
# Tokens written down

A dump has one line for each token: the place where the token starts, a tab, and the token by its
kind and value. What a text becomes is dumped in full. Its integers can be written, since its literals
were no longer than can be read, and its words and signs need no escapes between their quotes.
-/

namespace MflFrontend

/-- The value of a token as a dump has it. -/
inductive Value.WrittenAs : Value → String → Prop where
  /-- A truth value by its name. -/
  | bool (b : Bool) : WrittenAs (.bool b) (if b then "True" else "False")
  /-- An integer by its digits. -/
  | int (n : Int) : WrittenAs (.int n) (integerText n)
  /-- A double by its shortest text. -/
  | real (d : Double) : WrittenAs (.real d) d.text
  /-- A text as it is, between single quotes. -/
  | text (s : String) : WrittenAs (.text s) ("'" ++ s ++ "'")

/-- The token as a dump has it: the sentinel by its kind alone, any other with its value. -/
inductive Token.WrittenAs (t : Token) : String → Prop where
  /-- The sentinel carries nothing. -/
  | sentinel (h : t.kind = .endOfInput) : WrittenAs t "Token(EOF)"
  /-- Any other token carries a value. -/
  | lexeme {shown : String} (h : t.value.WrittenAs shown) :
      WrittenAs t ("Token(" ++ t.kind.name ++ ", " ++ shown ++ ")")

/-- The line of a dump that is about the token. -/
def Token.DumpedAs (t : Token) (line : String) : Prop :=
  ∃ shown, t.WrittenAs shown ∧
    line = integerText t.line ++ ":" ++ integerText t.column ++ "\t" ++ shown ++ "\n"

/-! ## Tokens of a text -/

theorem isPrintable_of_code {c : Char} (hlow : 0x21 ≤ c.toNat) (hhigh : c.toNat ≤ 0x7e) :
    isPrintable c = true := by
  unfold isPrintable
  rw [if_pos (by omega)]
  simp only [Bool.and_eq_true, decide_eq_true_eq]
  omega

/-- The characters of lexemes are shown as they are. -/
theorem IsLexeme.plain {l : List Char} (h : IsLexeme l) :
    ∀ c ∈ l, isPrintable c = true ∧ c ≠ singleQuote ∧ c ≠ '\\' := by
  have hsigns : ∀ e ∈ TokenKind.signs, ∀ c ∈ e.1,
      (0x21 ≤ c.toNat ∧ c.toNat ≤ 0x7e) ∧ c ≠ singleQuote ∧ c ≠ '\\' := by
    simp [TokenKind.signs, singleQuote]
  intro c hc
  rcases h.mem_cases hc with hc | rfl | ⟨e, he, hc⟩
  · obtain ⟨hlow, hhigh⟩ := code_of_isWordPart hc
    refine ⟨isPrintable_of_code (by omega) (by omega), ?_, ?_⟩
    · rintro rfl
      exact absurd hlow (by decide)
    · rintro rfl
      exact absurd hc (by decide)
  · decide
  · obtain ⟨⟨hlow, hhigh⟩, hquotes⟩ := hsigns e he c hc
    exact ⟨isPrintable_of_code hlow hhigh, hquotes⟩

theorem Value.text_display {l : List Char} (h : IsLexeme l) :
    (Value.text (String.ofList l)).display = "'" ++ String.ofList l ++ "'" := by
  refine String.toList_injective ?_
  rw [display, String.toList_ofList, String.toList_ofList, quoted_plain h.plain]
  simp [singleQuote]

/-- What a lexeme stands for is written with its value. -/
theorem Denotes.writtenAs {l : List Char} {t : Token} (hl : IsLexeme l)
    (h : Denotes l t.kind t.value) : t.WrittenAs t.display := by
  have hshown : ∀ {v shown}, t.value = v → v ≠ .none → v.display = shown → v.WrittenAs shown →
      t.WrittenAs t.display := by
    intro v shown hv hne hdisplay hwritten
    have htext : t.display = "Token(" ++ t.kind.name ++ ", " ++ shown ++ ")" := by
      unfold Token.display
      rw [hv]
      cases v with
      | none => exact absurd rfl hne
      | bool b => rw [← hdisplay]
      | int n => rw [← hdisplay]
      | real d => rw [← hdisplay]
      | text s => rw [← hdisplay]
    rw [htext]
    exact .lexeme (hv ▸ hwritten)
  generalize hkind : t.kind = k at h
  generalize hvalue : t.value = v at h
  cases h with
  | true => exact hshown hvalue nofun rfl (.bool _)
  | false => exact hshown hvalue nofun rfl (.bool _)
  | keyword _ _ _ => exact hshown hvalue nofun (Value.text_display hl) (.text _)
  | name _ _ => exact hshown hvalue nofun (Value.text_display hl) (.text _)
  | integer _ => exact hshown hvalue nofun rfl (.int _)
  | real _ _ => exact hshown hvalue nofun rfl (.real _)
  | sign _ => exact hshown hvalue nofun (Value.text_display hl) (.text _)

/-- The tokens of a text are written as their dump has them. -/
theorem writtenAs_of_tokenize {text : String} {ts : List Token} (h : tokenize text = .ok ts) :
    ∀ t ∈ ts, t.WrittenAs t.display := by
  obtain ⟨fs, last, hfs, -, -, hts⟩ := factors_of_tokenize h
  clear h
  generalize text.toList = cs at hfs
  generalize ([] : List Char) = before at hts
  induction hfs generalizing before ts with
  | nil =>
    cases hts
    exact List.forall_mem_singleton.mpr (.sentinel rfl)
  | cons _ hlexeme _ _ ih =>
    cases hts with
    | cons hdenotes hts =>
      exact List.forall_mem_cons.mpr ⟨Denotes.writtenAs hlexeme hdenotes, ih _ hts⟩

/-! ## Dumps -/

/-- Tokens that can be written are dumped in full. -/
theorem Shown.dump_of_writable {ts : List Token} (h : ∀ t ∈ ts, t.IsWritable) :
    Shown.dump ts = .text (String.join (ts.map Token.dumpLine)) [] := by
  induction ts with
  | nil => rfl
  | cons t ts ih =>
    obtain ⟨ht, hts⟩ := List.forall_mem_cons.mp h
    rw [dump, if_pos ht, ih hts, List.map_cons, String.join_cons]
    rfl

/-- The tokens of a text are dumped in full, each on the line that is about it. -/
theorem dump_of_tokenize {text : String} {ts : List Token} (h : tokenize text = .ok ts) :
    ∃ lines, List.Forall₂ Token.DumpedAs ts lines ∧
      Shown.dump ts = .text (String.join lines) [] := by
  refine ⟨ts.map Token.dumpLine, ?_, Shown.dump_of_writable (isWritable_of_tokenize h)⟩
  rw [List.forall₂_map_right_iff, List.forall₂_same]
  exact fun t ht => ⟨t.display, writtenAs_of_tokenize h t ht, rfl⟩

end MflFrontend
