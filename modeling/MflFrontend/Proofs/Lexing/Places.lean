import MflFrontend.Proofs.Lexing.Gaps

/-!
# Where a lexer stands

The calls of a lexer may come in any order, and may stop in the middle of a lexeme or of a comment.
Each of them, also one that fails, does nothing to the cursor but pass some of the characters in
front. So the offset, the line and the column of the cursor are always those of one place in the
text, and the cursor never goes back.

A token carries the place of the first character that it was read from, and the sentinel that of the
end of the text. A character stream at the place of the lexer reads what the lexer reads.
-/

namespace MflFrontend

/-! ## Cursors in a text -/

/-- The cursor stands in the text: as many characters as its offset says lie before it, its line is
one more than there are line feeds among them, its column one more than there are characters since
the last of these, and the others are still to come. -/
structure Cursor.StandsIn (c : Cursor) (text : List Char) : Prop where
  offset_le : c.offset ≤ text.length
  line : c.line = lineAt (text.take c.offset)
  column : c.column = columnAt (text.take c.offset)
  rest : c.rest = text.drop c.offset

/-- The token stands for the characters of the text between two positions and carries the place of
the first of them. The sentinel stands for none, at the end. -/
inductive Token.Spans (text : List Char) : Token → Nat → Nat → Prop where
  /-- A lexeme with anything before and behind it. -/
  | lexeme {before l behind : List Char} {kind : TokenKind} {value : Value}
      (htext : text = before ++ (l ++ behind)) (hdenotes : Denotes l kind value) :
      Spans text ⟨kind, value, lineAt before, columnAt before⟩ before.length
        (before.length + l.length)
  /-- The end. -/
  | sentinel : Spans text ⟨.endOfInput, .none, lineAt text, columnAt text⟩ text.length text.length

namespace Cursor

variable {c : Cursor} {text : List Char}

theorem StandsIn.location (h : c.StandsIn text) :
    c.toLocation = locationAt (text.take c.offset) := by
  rw [locationAt, ← h.line, ← h.column]

/-- The text in two parts, of which the first lies before the cursor. -/
theorem StandsIn.split (h : c.StandsIn text) :
    ∃ before, text = before ++ c.rest ∧ c.offset = before.length ∧
      c.toLocation = locationAt before := by
  refine ⟨text.take c.offset, ?_, ?_, h.location⟩
  · rw [h.rest, List.take_append_drop]
  · rw [List.length_take, Nat.min_eq_left h.offset_le]

theorem StandsIn.of_split {before : List Char} (htext : text = before ++ c.rest)
    (hoffset : c.offset = before.length) (hat : c.toLocation = locationAt before) :
    c.StandsIn text := by
  have htake : text.take c.offset = before := by
    rw [htext, hoffset, List.take_left]
  constructor
  · rw [htext, List.length_append, hoffset]
    exact Nat.le_add_right _ _
  · rw [htake, hat]
    rfl
  · rw [htake, hat]
    rfl
  · rw [htext, hoffset, List.drop_left]

theorem standsIn_start (text : String) : (start text).StandsIn text.toList :=
  .of_split (List.nil_append _).symm rfl rfl

theorem offset_pass {c : Cursor} {n : Nat} (h : n ≤ c.rest.length) :
    (c.pass n).offset = c.offset + n := by
  rw [pass, List.length_take, Nat.min_eq_left h]

theorem offset_pass_left {w behind : List Char} (hrest : c.rest = w ++ behind) :
    (c.pass w.length).offset = c.offset + w.length := by
  rw [pass, hrest, List.take_left]

theorem offset_le_pass (c : Cursor) (n : Nat) : c.offset ≤ (c.pass n).offset :=
  Nat.le_add_right _ _

/-- A cursor that passes characters stays in its text. -/
theorem StandsIn.pass (h : c.StandsIn text) (n : Nat) : (c.pass n).StandsIn text := by
  obtain ⟨before, htext, hoffset, hat⟩ := h.split
  have hsplit : text = (before ++ c.rest.take n) ++ (c.pass n).rest := by
    rw [rest_pass, List.append_assoc, List.take_append_drop, ← htext]
  refine .of_split hsplit ?_ ?_
  · rw [List.length_append, ← hoffset]
    rfl
  · rw [← locationAt_afterAll, ← hat]
    rfl

/-- A cursor stands at the end of its text where nothing is still to come. -/
theorem StandsIn.rest_eq_nil_iff (h : c.StandsIn text) : c.rest = [] ↔ c.offset = text.length := by
  rw [h.rest, List.drop_eq_nil_iff]
  exact ⟨Nat.le_antisymm h.offset_le, Nat.le_of_eq ∘ Eq.symm⟩

theorem StandsIn.sentinel_spans (h : c.StandsIn text) (hend : c.rest = []) :
    c.sentinel.Spans text c.offset c.offset := by
  have hoffset := h.rest_eq_nil_iff.mp hend
  have hsentinel : c.sentinel = ⟨.endOfInput, .none, lineAt text, columnAt text⟩ := by
    rw [sentinel, h.line, h.column, hoffset, List.take_length]
  rw [hsentinel, hoffset]
  exact .sentinel

theorem StandsIn.lexeme_spans {l behind : List Char} {kind : TokenKind} {value : Value}
    (h : c.StandsIn text) (hrest : c.rest = l ++ behind) (hdenotes : Denotes l kind value) :
    Token.Spans text ⟨kind, value, c.line, c.column⟩ c.offset (c.pass l.length).offset := by
  obtain ⟨before, htext, hoffset, hat⟩ := h.split
  have htoken : (⟨kind, value, c.line, c.column⟩ : Token) =
      ⟨kind, value, lineAt before, columnAt before⟩ := by
    rw [hat]
    rfl
  rw [htoken, offset_pass_left hrest, hoffset]
  exact .lexeme (htext.trans (by rw [hrest])) hdenotes

/-- Reading passes the trivia in front and then what is taken. -/
theorem scan_cursor (c : Cursor) : c.scan.cursor = c.skipTrivia.pass c.scan.taken := by
  unfold scan scanLexeme
  split
  · rw [pass_zero]
  · rfl

/-- A token that is read stands for what lies behind the trivia in front. -/
theorem StandsIn.scan_spans (h : c.StandsIn text) {t : Token} (ht : c.scan.outcome = .ok t) :
    ∃ gap behind, c.rest = gap ++ behind ∧ Trivia gap behind ∧
      t.Spans text (c.offset + gap.length) c.scan.cursor.offset := by
  obtain ⟨⟨gap, behind, hrest, hgap, hfront⟩, -⟩ := trivia_split c.rest
  have hbehind := h.pass gap.length
  refine ⟨gap, behind, hrest, hgap, ?_⟩
  rw [← offset_pass_left hrest]
  cases behind with
  | nil =>
    rw [List.append_nil] at hrest
    rw [scan_end (hrest ▸ hgap)] at ht ⊢
    cases ht
    have hend : (c.pass c.rest.length).rest = [] := rest_pass_left (List.append_nil _).symm
    rw [← hrest] at hbehind ⊢
    exact hbehind.sentinel_spans hend
  | cons a as =>
    rw [scan_front hrest hgap hfront] at ht ⊢
    rcases read_cases a as with ⟨l, rest, kind, value, heq, -, -, -, hdenotes, hread⟩ | ⟨fault, hfault⟩
    · rw [hread] at ht ⊢
      cases ht
      exact hbehind.lexeme_spans ((rest_pass_left hrest).trans heq) hdenotes
    · rw [hfault] at ht
      cases fault <;> cases ht

end Cursor

/-! ## Signs -/

/-- A sign that is matched is one of the fixed spellings, of which the two truth values are too long
to be matched. -/
theorem sign?_denotes {cs l : List Char} {kind : TokenKind} (h : Lexeme.sign? cs = some (l, kind)) :
    (∃ rest, cs = l ++ rest) ∧ Denotes l kind (.text (String.ofList l)) := by
  have hspelling : ∃ n ≤ 2, Lexeme.spelling? n cs = some (l, kind) := by
    unfold Lexeme.sign? at h
    cases htwo : Lexeme.spelling? 2 cs with
    | some e =>
      rw [htwo] at h
      exact ⟨2, Nat.le_refl 2, htwo.trans h⟩
    | none =>
      rw [htwo] at h
      exact ⟨1, Nat.le_succ 1, h⟩
  obtain ⟨n, hn, hspelling⟩ := hspelling
  unfold Lexeme.spelling? at hspelling
  simp only at hspelling
  split at hspelling
  · cases hspelling
  obtain ⟨kind', hkind, heq⟩ := Option.map_eq_some_iff.mp hspelling
  cases heq
  refine ⟨⟨cs.drop n, (List.take_append_drop n cs).symm⟩, ?_⟩
  have hmem := mem_of_ofSpelling? hkind
  rw [spellings_eq] at hmem
  rcases List.mem_append.mp hmem with hkeyword | hsign
  · have hshort : ∀ e ∈ TokenKind.keywords, e.1.length ≤ 2 → e.2 ≠ .trueLit ∧ e.2 ≠ .falseLit := by
      decide
    have hlength : (cs.take n).length ≤ 2 := Nat.le_trans (List.length_take_le n cs) hn
    obtain ⟨htrue, hfalse⟩ := hshort _ hkeyword hlength
    exact .keyword hkeyword htrue hfalse
  · exact .sign hsign

/-! ## Calls -/

/-- The calls of a lexer that go on in its text or look at it. -/
inductive LexerCall where
  | next | peek | advance | skipTrivia | skipComment | matchSign
  deriving DecidableEq

namespace Lexer

/-- The lexer after a call, whatever the call came to. -/
def after (l : Lexer) : LexerCall → Lexer
  | .next => l.next.2
  | .peek => l
  | .advance => l.advance.2
  | .skipTrivia => l.skipTrivia
  | .skipComment => l.skipComment
  | .matchSign => l.matchSign.2

/-- The lexer after several calls. -/
def afterAll (l : Lexer) (calls : List LexerCall) : Lexer := calls.foldl after l

theorem afterAll_append (l : Lexer) (calls more : List LexerCall) :
    l.afterAll (calls ++ more) = (l.afterAll calls).afterAll more :=
  List.foldl_append

/-- Either there is a character, which can be looked at and taken, or there is none. -/
theorem peek_cases (l : Lexer) :
    (l.peek = none ∧ l.cursor.rest = [] ∧
      l.advance = (.error (.pastEnd l.cursor.offset l.cursor.line), l)) ∨
    ∃ c, l.peek = some c ∧ l.cursor.rest.head? = some c ∧
      l.advance = (.ok c, { l with cursor := l.cursor.pass 1 }) := by
  unfold peek advance
  cases hrest : l.cursor.rest with
  | nil => exact .inl ⟨rfl, rfl, rfl⟩
  | cons c cs => exact .inr ⟨c, rfl, rfl, rfl⟩

/-- Either a sign stands in front and is taken, or nothing happens. -/
theorem matchSign_cases (l : Lexer) :
    l.matchSign = (none, l) ∨
    ∃ spelling kind, Lexeme.sign? l.cursor.rest = some (spelling, kind) ∧
      l.matchSign = (some ⟨kind, .text (String.ofList spelling), l.cursor.line, l.cursor.column⟩,
        { l with cursor := l.cursor.pass spelling.length }) := by
  unfold matchSign
  cases hsign : Lexeme.sign? l.cursor.rest with
  | none => exact .inl rfl
  | some e => exact .inr ⟨e.1, e.2, rfl, rfl⟩

/-- A call passes some characters and does nothing else to the cursor. -/
theorem exists_pass (l : Lexer) (call : LexerCall) :
    ∃ n, (l.after call).cursor = l.cursor.pass n := by
  cases call with
  | next => exact ⟨_, (Cursor.scan_cursor _).trans (Cursor.pass_pass _ _ _)⟩
  | peek => exact ⟨0, (Cursor.pass_zero _).symm⟩
  | advance =>
    rcases l.peek_cases with ⟨-, -, hadvance⟩ | ⟨c, -, -, hadvance⟩
    · exact ⟨0, by rw [after, hadvance, Cursor.pass_zero]⟩
    · exact ⟨1, by rw [after, hadvance]⟩
  | skipTrivia => exact ⟨_, rfl⟩
  | skipComment => exact ⟨_, rfl⟩
  | matchSign =>
    rcases l.matchSign_cases with hmatch | ⟨spelling, kind, -, hmatch⟩
    · exact ⟨0, by rw [after, hmatch, Cursor.pass_zero]⟩
    · exact ⟨spelling.length, by rw [after, hmatch]⟩

/-- After any calls the cursor stands in the text, and no less far than before. -/
theorem standsIn_afterAll {l : Lexer} {text : List Char} (h : l.cursor.StandsIn text)
    (calls : List LexerCall) :
    (l.afterAll calls).cursor.StandsIn text ∧ l.cursor.offset ≤ (l.afterAll calls).cursor.offset := by
  induction calls generalizing l with
  | nil => exact ⟨h, Nat.le_refl _⟩
  | cons call calls ih =>
    obtain ⟨n, hpass⟩ := l.exists_pass call
    have hnext : (l.after call).cursor.StandsIn text := hpass ▸ h.pass n
    have hle : l.cursor.offset ≤ (l.after call).cursor.offset := hpass ▸ l.cursor.offset_le_pass n
    obtain ⟨hstands, hgoes⟩ := ih hnext
    exact ⟨hstands, Nat.le_trans hle hgoes⟩

/-- The character stream over the text, at the place of the lexer. -/
def stream (l : Lexer) (text : String) : CharStream :=
  .ofText text l.cursor.offset l.cursor.line l.cursor.column

/-- The lexer is at a place of the text: its cursor stands there, its calls agree with each other and
with a character stream at that place, and the tokens they bring are placed in the text. -/
structure InPlace (l : Lexer) (text : String) : Prop where
  stands : l.cursor.StandsIn text.toList
  /-- There is nothing to look at exactly if no character can be taken. -/
  peek_none : l.peek = none ↔ l.advance.1 = .error (.pastEnd l.cursor.offset l.cursor.line)
  /-- What can be looked at is what is taken. -/
  peek_some : ∀ c, l.peek = some c ↔ l.advance.1 = .ok c
  advance_stays : l.peek = none → l.advance.2 = l
  matchSign_stays : l.matchSign.1 = none → l.matchSign.2 = l
  /-- The next token stands for what lies behind the trivia in front, up to the new place. -/
  next_spans : ∀ t, l.next.1 = .ok t → ∃ gap behind, l.cursor.rest = gap ++ behind ∧
    Trivia gap behind ∧ t.Spans text.toList (l.cursor.offset + gap.length) l.next.2.cursor.offset
  /-- A sign that is matched stands for what lies between the old place and the new one. -/
  matchSign_spans : ∀ t, l.matchSign.1 = some t →
    t.Spans text.toList l.cursor.offset l.matchSign.2.cursor.offset
  /-- A character stream shows the same character. -/
  stream_peek : (l.stream text).peek 0 = l.peek
  /-- It gives the same answer where a character is taken, and is then at the same place. -/
  stream_next : (l.stream text).next = (l.advance.1, l.advance.2.stream text)

/-! ## The character stream at the same place -/

variable {l : Lexer} {text : String}

/-- The character at the place of a cursor in the text. -/
theorem stream_at (h : l.cursor.StandsIn text.toList) :
    (l.stream text).at? l.cursor.offset = l.cursor.rest.head? := by
  rw [h.rest, List.head?_drop]
  simp [stream, CharStream.ofText, CharStream.at?]

theorem stream_peek_eq (h : l.cursor.StandsIn text.toList) :
    (l.stream text).peek 0 = l.peek := by
  have hhead : (l.stream text).position + 0 = l.cursor.offset := Int.add_zero _
  rw [CharStream.peek, hhead, stream_at h]
  rfl

theorem stream_atEnd (h : l.cursor.StandsIn text.toList) :
    (l.stream text).atEnd = true ↔ l.cursor.rest = [] := by
  rw [h.rest, List.drop_eq_nil_iff]
  simp [stream, CharStream.ofText, CharStream.atEnd]

theorem stream_next_eq (h : l.cursor.StandsIn text.toList) :
    (l.stream text).next = (l.advance.1, l.advance.2.stream text) := by
  unfold CharStream.next CharStream.read
  rcases l.peek_cases with ⟨-, hrest, hadvance⟩ | ⟨c, -, hhead, hadvance⟩
  · rw [if_pos ((stream_atEnd h).mpr hrest), hadvance]
    rfl
  · have hne : ¬ (l.stream text).atEnd = true := by
      rw [stream_atEnd h]
      intro hnil
      rw [hnil] at hhead
      cases hhead
    have hposition : ¬ (l.stream text).position < 0 := by
      simp [stream, CharStream.ofText]
    obtain ⟨cs, hcs⟩ := List.head?_eq_some_iff.mp hhead
    have hat : (l.stream text).at? (l.stream text).position = some c := (stream_at h).trans hhead
    rw [if_neg hne, if_neg hposition, hat, hadvance]
    simp [stream, CharStream.ofText, Cursor.pass, hcs]

/-! ## All calls -/

/-- A lexer whose cursor stands in the text is at a place of it, as are its answers. -/
theorem inPlace_of_standsIn (h : l.cursor.StandsIn text.toList) : l.InPlace text where
  stands := h
  peek_none := by
    rcases l.peek_cases with ⟨hpeek, -, hadvance⟩ | ⟨c, hpeek, -, hadvance⟩
    · simp [hpeek, hadvance]
    · simp [hpeek, hadvance]
  peek_some := by
    intro c
    rcases l.peek_cases with ⟨hpeek, -, hadvance⟩ | ⟨d, hpeek, -, hadvance⟩
    · simp [hpeek, hadvance]
    · simp [hpeek, hadvance]
  advance_stays := by
    intro hnone
    rcases l.peek_cases with ⟨-, -, hadvance⟩ | ⟨c, hpeek, -, -⟩
    · rw [hadvance]
    · rw [hnone] at hpeek
      cases hpeek
  matchSign_stays := by
    intro hnone
    rcases l.matchSign_cases with hmatch | ⟨spelling, kind, -, hmatch⟩
    · rw [hmatch]
    · rw [hmatch] at hnone
      cases hnone
  next_spans := fun t ht => h.scan_spans ht
  matchSign_spans := by
    intro t ht
    rcases l.matchSign_cases with hmatch | ⟨spelling, kind, hsign, hmatch⟩
    · rw [hmatch] at ht
      cases ht
    · obtain ⟨⟨rest, hrest⟩, hdenotes⟩ := sign?_denotes hsign
      rw [hmatch] at ht ⊢
      cases ht
      exact h.lexeme_spans hrest hdenotes
  stream_peek := stream_peek_eq h
  stream_next := stream_next_eq h

/-- Whatever is called, and in whatever order, a lexer is at a place of its text, and never goes
back. -/
theorem calls_keep_place (text : String) (calls : List LexerCall) :
    ((ofText text).afterAll calls).InPlace text ∧
    ∀ more, ((ofText text).afterAll calls).cursor.offset ≤
      ((ofText text).afterAll (calls ++ more)).cursor.offset := by
  obtain ⟨hstands, -⟩ := standsIn_afterAll (l := ofText text) (Cursor.standsIn_start text) calls
  refine ⟨inPlace_of_standsIn hstands, fun more => ?_⟩
  rw [afterAll_append]
  exact (standsIn_afterAll hstands more).2

/-- A name, a comment, and a real literal that is not finished. -/
def sampleLine : String := "x #\n1."

/-- After a token, a blank taken on its own and a reading that fails behind the comment, the lexer is
at the end of the second line, and still has its token. -/
theorem sampleLine_keeps_place :
    (ofText sampleLine).afterAll [.next, .advance, .next] =
      { cursor := { line := 2, column := 3, offset := 6, rest := [] }
        current? := some ⟨.ident, .text "x", 1, 1⟩ } ∧
    ((ofText sampleLine).afterAll [.next, .advance, .next]).InPlace sampleLine := by
  have hstate : (ofText sampleLine).afterAll [.next, .advance, .next] =
      { cursor := { line := 2, column := 3, offset := 6, rest := [] }
        current? := some ⟨.ident, .text "x", 1, 1⟩ } := by
    cbv
  exact ⟨hstate, (calls_keep_place sampleLine _).1⟩

end Lexer

end MflFrontend
