import MflFrontend.Proofs.Lexing.Places

/-!
# Asking for tokens makes progress

A call for the next token takes a character, or the lexer has come to rest: at the end of the text,
or before a character that starts no token. There every further call gives the same answer and
changes nothing. Failing is not the same as resting, since a number that is no literal is taken
before the failure is found.

As no more characters can be taken than the text has, every lexer comes to rest, and a text has been
read into tokens, or found to fail, after one call more than that at most.
-/

namespace MflFrontend

/-- The failure is about a number: a real literal that is none, or an integer literal that is too
long. -/
inductive Failure.IsAboutNumber : Failure → Prop where
  | malformedReal (literal : List Char) (line : Int) :
      IsAboutNumber (.rejected (.lexical (.malformedReal literal) line))
  | invalidReal (literal : List Char) (line : Int) :
      IsAboutNumber (.rejected (.lexical (.invalidReal literal) line))
  | integerTooLong (digits : Nat) : IsAboutNumber (.integerTooLong digits)

/-! ## What is taken where reading fails -/

/-- A number is never read from nothing, and it fails by being no literal. -/
theorem readNumber_cases {whole : List Char} (hwhole : whole ≠ []) (rest : List Char) (line : Int) :
    0 < (Lexeme.readNumber whole rest).length ∧
    ∀ fault, (Lexeme.readNumber whole rest).outcome = .error fault →
      (fault.failureAt line).IsAboutNumber := by
  have hpos := List.length_pos_of_ne_nil hwhole
  unfold Lexeme.readNumber
  split
  · simp only
    split
    · refine ⟨by simp only; omega, fun fault hfault => ?_⟩
      cases hfault
      exact .malformedReal _ _
    split
    · refine ⟨by simp only; omega, fun fault hfault => ?_⟩
      cases hfault
      exact .invalidReal _ _
    · exact ⟨by simp only; omega, nofun⟩
  · refine ⟨hpos, fun fault hfault => ?_⟩
    simp only [Lexeme.ofDigits] at hfault
    split at hfault
    · cases hfault
      exact .integerTooLong _
    · cases hfault

/-- A fault is found behind a number, or at a character that starts no token, which is not taken. -/
theorem read_fault_cases {a : Char} {as : List Char} {fault : ScanFault}
    (h : (Lexeme.read a as).outcome = .error fault) (line : Int) :
    (0 < (Lexeme.read a as).length ∧ (fault.failureAt line).IsAboutNumber) ∨
      Lexeme.read a as = ⟨0, .error (.lexical (.unexpectedCharacter a))⟩ := by
  unfold Lexeme.read at h ⊢
  split at h
  · cases h
  · next hword =>
    rw [if_neg hword]
    split at h
    · next hdigit =>
      rw [if_pos hdigit]
      obtain ⟨hpos, hnumber⟩ := readNumber_cases (List.cons_ne_nil a _) _ line
      exact .inl ⟨hpos, hnumber fault h⟩
    · next hdigit =>
      rw [if_neg hdigit]
      split at h
      · cases h
      · exact .inr rfl

/-! ## One call -/

namespace Cursor

theorem scan_skipTrivia (c : Cursor) : c.skipTrivia.scan = c.scan := by
  obtain ⟨⟨w, behind, hrest, hw, hfront⟩, -⟩ := trivia_split c.rest
  rw [(skipTrivia_eq hrest hw hfront).1, scan_skip hrest hw]

/-- Where nothing is taken, reading goes on to where it would begin, and so gives the same again. -/
theorem scan_of_idle {c : Cursor} (h : c.scan.taken = 0) : c.scan.cursor.scan = c.scan := by
  rw [scan_cursor, h, pass_zero, scan_skipTrivia]

end Cursor

namespace Lexer

/-- The lexer after a number of calls for the next token. -/
def nexts (l : Lexer) (n : Nat) : Lexer := l.afterAll (List.replicate n .next)

theorem nexts_succ (l : Lexer) (n : Nat) : l.nexts (n + 1) = (l.nexts n).next.2 := by
  rw [nexts, List.replicate_succ', afterAll_append]
  rfl

/-- Every call for the next token, from here on, gives the answer and changes nothing. -/
def Rests (l : Lexer) (answer : Except Failure Token) : Prop :=
  ∀ n, (l.nexts n).next = (answer, l)

/-- What a call for the next token comes to in a text. -/
inductive NextCall (l : Lexer) (text : List Char) : Prop where
  /-- It brings a token, for which characters are taken. -/
  | token {t : Token} (ht : l.next.1 = .ok t) (hkind : t.kind ≠ .endOfInput)
      (hgoes : l.cursor.offset < l.next.2.cursor.offset)
  /-- It takes a number that is no literal, and fails. -/
  | number {failure : Failure} (hfails : l.next.1 = .error failure)
      (hnumber : failure.IsAboutNumber) (hgoes : l.cursor.offset < l.next.2.cursor.offset)
  /-- It brings the sentinel, at the end of the text, where the lexer rests. -/
  | sentinel {t : Token} (ht : l.next.1 = .ok t) (hkind : t.kind = .endOfInput)
      (hend : l.next.2.cursor.offset = text.length) (hrests : l.next.2.Rests (.ok t))
  /-- It fails before a character that starts no token, where the lexer rests. -/
  | stuck {c : Char} {failure : Failure} (hfails : l.next.1 = .error failure)
      (hcharacter : failure =
        .rejected (.lexical (.unexpectedCharacter c) l.next.2.cursor.line))
      (hbefore : l.next.2.peek = some c) (hrests : l.next.2.Rests (.error failure))

theorem rests_of_next {l : Lexer} {answer : Except Failure Token} (h : l.next = (answer, l)) :
    l.Rests answer := by
  have hstays : ∀ n, l.nexts n = l := by
    intro n
    induction n with
    | zero => rfl
    | succ n ih => rw [nexts_succ, ih, h]
  intro n
  rw [hstays, h]

theorem Rests.next {l : Lexer} {answer : Except Failure Token} (h : l.Rests answer) :
    l.next = (answer, l) :=
  h 0

theorem next_of_ok {l : Lexer} {t : Token} (h : l.cursor.scan.outcome = .ok t) :
    l.next = (.ok t, ⟨l.cursor.scan.cursor, some t⟩) := by
  simp only [next, h]

/-- A call that fails leaves the current token as it was. -/
theorem next_of_error {l : Lexer} {failure : Failure} (h : l.cursor.scan.outcome = .error failure) :
    l.next = (.error failure, ⟨l.cursor.scan.cursor, l.current?⟩) := by
  simp only [next, h]

theorem rests_of_idle {l : Lexer} (h : l.cursor.scan.taken = 0) : l.next.2.Rests l.next.1 := by
  refine rests_of_next ?_
  have hscan : l.cursor.scan.cursor.scan = l.cursor.scan := Cursor.scan_of_idle h
  cases houtcome : l.cursor.scan.outcome with
  | ok t =>
    have hagain : l.cursor.scan.cursor.scan.outcome = .ok t := by
      rw [hscan, houtcome]
    rw [next_of_ok houtcome, next_of_ok hagain, hscan]
  | error failure =>
    have hagain : l.cursor.scan.cursor.scan.outcome = .error failure := by
      rw [hscan, houtcome]
    rw [next_of_error houtcome, next_of_error hagain, hscan]

theorem nextCall_of_standsIn {l : Lexer} {text : List Char} (h : l.cursor.StandsIn text) :
    l.NextCall text := by
  obtain ⟨⟨gap, behind, hrest, hgap, hfront⟩, -⟩ := trivia_split l.cursor.rest
  cases behind with
  | nil =>
    rw [List.append_nil] at hrest
    have hscan := Cursor.scan_end (hrest ▸ hgap)
    have hends : (l.cursor.pass l.cursor.rest.length).rest = [] :=
      Cursor.rest_pass_left (List.append_nil _).symm
    have hoffset := (h.pass l.cursor.rest.length).rest_eq_nil_iff.mp hends
    have ht : l.next.1 = .ok (l.cursor.pass l.cursor.rest.length).sentinel := by
      rw [next, hscan]
    refine .sentinel ht rfl ?_ (ht ▸ rests_of_idle (by rw [hscan]))
    rw [next, hscan]
    exact hoffset
  | cons a as =>
    have hscan := Cursor.scan_front hrest hgap hfront
    have hbehind : (l.cursor.pass gap.length).rest = a :: as := Cursor.rest_pass_left hrest
    have hoffset : l.next.2.cursor.offset =
        (l.cursor.pass gap.length).offset + (Lexeme.read a as).length := by
      rw [next, hscan, Cursor.offset_pass (hbehind ▸ length_read_le a as)]
    have hle := l.cursor.offset_le_pass gap.length
    rcases read_cases a as with ⟨w, rest, kind, value, -, hw, -, -, hdenotes, hread⟩ | ⟨fault, hfault⟩
    · have hpos := hw.length_pos
      rw [hread] at hscan hoffset
      refine .token (by rw [next, hscan]; rfl) hdenotes.kind_ne_end ?_
      simp only at hoffset
      omega
    · have hfails : l.next.1 = .error (fault.failureAt (l.cursor.pass gap.length).line) := by
        rw [next, hscan, hfault]
        cases fault <;> rfl
      rcases read_fault_cases hfault (l.cursor.pass gap.length).line with ⟨hpos, hnumber⟩ | hread
      · exact .number hfails hnumber (by omega)
      · rw [hread] at hscan hfault
        cases hfault
        have hcursor : l.next.2.cursor = l.cursor.pass gap.length := by
          rw [next, hscan]
          exact Cursor.pass_zero _
        refine .stuck hfails (by rw [hcursor]; rfl) ?_ (hfails ▸ rests_of_idle (by rw [hscan]))
        rw [peek, hcursor, hbehind]
        rfl

/-! ## Call after call -/

/-- As long as a lexer does not rest, each call takes a character at least. -/
theorem rests_or_le_offset (text : String) (n : Nat) :
    (∃ answer, ((ofText text).nexts n).Rests answer) ∨ n ≤ ((ofText text).nexts n).cursor.offset := by
  induction n with
  | zero => exact .inr (Nat.zero_le _)
  | succ n ih =>
    rw [nexts_succ]
    rcases ih with ⟨answer, hrests⟩ | hle
    · rw [hrests.next]
      exact .inl ⟨answer, hrests⟩
    · obtain ⟨hstands, -⟩ := standsIn_afterAll (l := ofText text) (Cursor.standsIn_start text)
        (List.replicate n .next)
      cases nextCall_of_standsIn hstands with
      | token _ _ hgoes => exact .inr (Nat.lt_of_le_of_lt hle hgoes)
      | number _ _ hgoes => exact .inr (Nat.lt_of_le_of_lt hle hgoes)
      | sentinel _ _ _ hrests => exact .inl ⟨_, hrests⟩
      | stuck _ _ _ hrests => exact .inl ⟨_, hrests⟩

/-- Asking for tokens up to the sentinel, or to the first failure: after how many calls that comes,
and what the tokens are. -/
inductive Collects : Lexer → Nat → Except Failure (List Token) → Prop where
  | sentinel {l : Lexer} {t : Token} (ht : l.next.1 = .ok t) (hkind : t.kind = .endOfInput) :
      Collects l 1 (.ok [t])
  | failure {l : Lexer} {failure : Failure} (hfails : l.next.1 = .error failure) :
      Collects l 1 (.error failure)
  | token {l : Lexer} {t : Token} {n : Nat} {tokens : Except Failure (List Token)}
      (ht : l.next.1 = .ok t) (hkind : t.kind ≠ .endOfInput) (hmore : Collects l.next.2 n tokens) :
      Collects l (n + 1) (tokens.map (t :: ·))

/-- Asking for tokens ends, after one call more than there are characters at most. -/
theorem exists_collects (l : Lexer) :
    ∃ n ≤ l.cursor.rest.length + 1, l.Collects n (Pull.tokens l.cursor.pulls) := by
  induction hlength : l.cursor.rest.length using Nat.strongRecOn generalizing l with
  | ind m ih =>
    cases houtcome : l.cursor.scan.outcome with
    | error failure =>
      rw [Cursor.tokens_pulls_of_error houtcome]
      exact ⟨1, Nat.succ_pos _, .failure houtcome⟩
    | ok t =>
      by_cases hkind : t.kind = .endOfInput
      · rw [Cursor.tokens_pulls_of_end houtcome ((Cursor.scan_taken houtcome).mpr hkind)]
        exact ⟨1, Nat.succ_pos _, .sentinel houtcome hkind⟩
      · have htaken : l.cursor.scan.taken ≠ 0 := fun h => hkind ((Cursor.scan_taken houtcome).mp h)
        have hshorter := Cursor.length_scan_lt l.cursor htaken
        obtain ⟨n, hn, hmore⟩ := ih _ (hlength ▸ hshorter) l.next.2 rfl
        have hcursor : l.next.2.cursor = l.cursor.scan.cursor := rfl
        rw [hcursor] at hn
        rw [Cursor.tokens_pulls_of_ok houtcome htaken]
        refine ⟨n + 1, ?_, .token houtcome hkind hmore⟩
        omega

/-- Each call for the next token moves the lexer on or finds it at rest, and one that fails leaves
the current token; after one call more than the text has characters the lexer rests, and by then the
tokens of the text have been collected, or their failure. -/
theorem nexts_go_on_or_rest (text : String) :
    (∀ n, ((ofText text).nexts n).NextCall text.toList ∧
      ∀ failure, ((ofText text).nexts n).next.1 = .error failure →
        ((ofText text).nexts (n + 1)).current = ((ofText text).nexts n).current) ∧
    (∃ answer, ((ofText text).nexts (text.length + 1)).Rests answer) ∧
    ∃ n ≤ text.length + 1, (ofText text).Collects n (tokenize text) := by
  have hstands : ∀ n, ((ofText text).nexts n).cursor.StandsIn text.toList := fun n =>
    (standsIn_afterAll (l := ofText text) (Cursor.standsIn_start text) (List.replicate n .next)).1
  have hlength : (ofText text).cursor.rest.length = text.length := String.length_toList
  refine ⟨fun n => ⟨nextCall_of_standsIn (hstands n), fun failure hfails => ?_⟩, ?_, ?_⟩
  · rw [nexts_succ, next_of_error hfails]
    rfl
  · refine (rests_or_le_offset text (text.length + 1)).resolve_right fun hle => ?_
    have hoffset := (hstands (text.length + 1)).offset_le
    rw [String.length_toList] at hoffset
    omega
  · rw [← hlength]
    exact exists_collects (ofText text)

/-- A name, a real literal that is not finished, and a character that starts no token. -/
def haltingText : String := "a 1.@"

/-- The second call takes a number and fails, and leaves the name the current token; the third fails
before the last character, where the lexer rests. -/
theorem haltingText_rests :
    ((ofText haltingText).nexts 1).next.1 =
      .error (.rejected (.lexical (.malformedReal ['1', '.']) 1)) ∧
    ((ofText haltingText).nexts 2).current = .ok ⟨.ident, .text "a", 1, 1⟩ ∧
    ((ofText haltingText).nexts 6).Rests
      (.error (.rejected (.lexical (.unexpectedCharacter '@') 1))) ∧
    ∃ n ≤ 6, (ofText haltingText).Collects n
      (.error (.rejected (.lexical (.malformedReal ['1', '.']) 1))) := by
  obtain ⟨hcalls, ⟨answer, hrests⟩, hcollects⟩ := nexts_go_on_or_rest haltingText
  have hfails : ((ofText haltingText).nexts 1).next.1 =
      .error (.rejected (.lexical (.malformedReal ['1', '.']) 1)) := by cbv
  have hfirst : ((ofText haltingText).nexts 1).current = .ok ⟨.ident, .text "a", 1, 1⟩ := by cbv
  have hlast : ((ofText haltingText).nexts 6).next.1 =
      .error (.rejected (.lexical (.unexpectedCharacter '@') 1)) := by cbv
  have htokens : tokenize haltingText =
      .error (.rejected (.lexical (.malformedReal ['1', '.']) 1)) := by cbv
  refine ⟨hfails, ((hcalls 1).2 _ hfails).trans hfirst, ?_, htokens ▸ hcollects⟩
  have hanswer : ((ofText haltingText).nexts 6).next.1 = answer := by
    rw [Rests.next (l := (ofText haltingText).nexts 6) hrests]
  rw [← hlast, hanswer]
  exact hrests

end Lexer

end MflFrontend
