import MflFrontend.Proofs.Grammar.Interleaving
import MflFrontend.Proofs.Lexing.Gaps

/-!
# The failures of a parse

A text that does not become a tree is rejected, with one exception. An integer literal of more
digits than the library converts is a lexeme like any other, but no token comes of it, and reading
it fails with something that is no rejection. This is the outcome for those texts in which reading
comes to such a literal before any fault, and the parse does not reject a token before it. No other
failure comes out of a parse; in particular the current token is never asked for too early.
-/

namespace MflFrontend

/-- An integer literal of `n` digits stands in front, and these are too many. -/
def LongInteger (cs : List Char) (n : Nat) : Prop :=
  ∃ l rest, cs = l ++ rest ∧ IsDigits l ∧ Separated l rest ∧ l.length = n ∧ maxIntegerDigits < n

/-- Behind lexemes that become tokens, the text goes on with an integer literal of `n` digits, which
are too many. -/
def MeetsLongInteger (text : List Char) (n : Nat) : Prop :=
  ∃ fs gap r, Factors text fs (gap ++ r) ∧ ShortIntegers fs ∧ Trivia gap r ∧ LongInteger r n

/-! ## Reading -/

/-- Only an integer literal that is too long fails to become a token for that reason. -/
theorem read_integerTooLong {a : Char} {as : List Char} {n : Nat} :
    (Lexeme.read a as).outcome = .error (.integerTooLong n) ↔ LongInteger (a :: as) n := by
  constructor
  · intro hread
    rcases lexeme_or_fault a as with ⟨l, rest, heq, hl, hsep⟩ | ⟨fault, hfault⟩
    · by_cases hdigits : IsDigits l
      · obtain ⟨b, bs, rfl⟩ := List.exists_cons_of_ne_nil hdigits.1
        have hsplit := heq
        rw [List.cons_append] at hsplit
        obtain ⟨rfl, rfl⟩ := List.cons.inj hsplit
        rw [read_integer hdigits (hsep.number (.inl hdigits))] at hread
        simp only [Lexeme.ofDigits] at hread
        split at hread
        · next hlong =>
          injection hread with hread
          injection hread with hn
          exact ⟨_, _, heq, hdigits, hsep, hn, hn ▸ hlong⟩
        · cases hread
      -- a token comes of every other lexeme
      · obtain ⟨kind, value, hdenotes⟩ := hl.denotes
        obtain ⟨b, bs, rfl, hok⟩ := hdenotes.read hsep fun h => absurd h hdigits
        rw [List.cons_append] at heq
        obtain ⟨rfl, rfl⟩ := List.cons.inj heq
        rw [hok] at hread
        cases hread
    · rw [hfault] at hread
      cases hread
  · rintro ⟨l, rest, heq, hdigits, hsep, hn, hlong⟩
    obtain ⟨b, bs, rfl⟩ := List.exists_cons_of_ne_nil hdigits.1
    rw [List.cons_append] at heq
    obtain ⟨rfl, rfl⟩ := List.cons.inj heq
    rw [read_integer hdigits (hsep.number (.inl hdigits)), ← hn]
    exact if_pos (hn ▸ hlong)

/-- No trivia stand before an integer literal. -/
theorem LongInteger.front {cs : List Char} {n : Nat} (h : LongInteger cs n) :
    ∃ a as, cs = a :: as ∧ triviaLength false (a :: as) = 0 := by
  obtain ⟨l, rest, rfl, hdigits, -, -, -⟩ := h
  obtain ⟨a, as, rfl⟩ := List.exists_cons_of_ne_nil hdigits.1
  exact ⟨a, as ++ rest, rfl, (IsLexeme.integer hdigits).triviaLength_append rest⟩

/-- Texts fail to become tokens in two ways. -/
theorem tokenize_failures {text : String} {failure : Failure} (h : tokenize text = .error failure) :
    (∃ e, failure = .rejected e) ∨
      ∃ n, failure = .integerTooLong n ∧ MeetsLongInteger text.toList n := by
  obtain ⟨fs, w, r, hfs, hshort, hw, hr⟩ := exists_factors text.toList
  cases hr with
  | stop =>
    rw [List.append_nil] at hfs
    obtain ⟨ts, hts⟩ := hfs.exists_tokens [] w
    rw [hfs.tokenize_ok hw hshort hts] at h
    cases h
  | @fault a as fault hfront hfault =>
    obtain ⟨passed, -, hfails⟩ := hfs.tokenize_fault hshort hw hfront hfault
    rw [hfails] at h
    injection h with h
    subst h
    cases fault with
    | lexical fault => exact .inl ⟨_, rfl⟩
    | integerTooLong n =>
      exact .inr ⟨n, rfl, fs, w, _, hfs, hshort, hw, read_integerTooLong.mp hfault⟩

/-- Reading a text comes to an integer literal that is too long if it meets one. -/
theorem tokenize_integerTooLong {text : String} {n : Nat} :
    tokenize text = .error (.integerTooLong n) ↔ MeetsLongInteger text.toList n := by
  constructor
  · intro h
    rcases tokenize_failures h with ⟨e, he⟩ | ⟨m, hm, hmeets⟩
    · cases he
    · cases hm
      exact hmeets
  · rintro ⟨fs, gap, r, hfs, hshort, hgap, hlong⟩
    obtain ⟨a, as, rfl, hfront⟩ := hlong.front
    obtain ⟨passed, -, hfails⟩ :=
      hfs.tokenize_fault hshort hgap hfront (read_integerTooLong.mpr hlong)
    exact hfails

/-! ## Parsing -/

/-- A text that begins with an integer literal that is too long fails with it. -/
theorem parseText_of_longInteger {text : String} {n : Nat} (h : LongInteger text.toList n)
    (room : Nat) : (parseText room text).outcome = .error (.integerTooLong n) := by
  obtain ⟨a, as, htext, hfront⟩ := h.front
  rw [htext] at h
  obtain ⟨p, more, hpulls, hp⟩ := Cursor.pulls_fault (c := Cursor.start text) (w := []) htext .nil
    hfront (read_integerTooLong.mpr h)
  exact parseText_of_first_failing hpulls hp

/-- A parse of a text comes to an integer literal that is too long exactly if reading meets such a
literal and the parse complains of no token. -/
theorem parseText_integerTooLong {room : Nat} {text : String} {n : Nat} :
    (parseText room text).outcome = .error (.integerTooLong n) ↔
      MeetsLongInteger text.toList n ∧
        ¬ ∃ e t, (parseText room text).outcome = .error (.rejected e) ∧ e.token? = some t := by
  rw [← tokenize_integerTooLong]
  constructor
  · intro houtcome
    refine ⟨?_, fun ⟨e, t, he, _⟩ => by rw [houtcome] at he; cases he⟩
    rcases parseText_cases room text with
      ⟨_, _, htree, -⟩ | ⟨_, _, herror⟩ | ⟨failure, hfails, herror⟩
    · rw [houtcome] at htree
      cases htree
    · rw [houtcome] at herror
      cases herror
    · rw [houtcome] at herror
      cases herror
      exact hfails
  · rintro ⟨hfails, hnone⟩
    rcases parseText_cases room text with
      ⟨_, ts, -, htokens, -⟩ | ⟨complaint, t, herror⟩ | ⟨failure, hfails', herror⟩
    · rw [hfails] at htokens
      cases htokens
    · exact absurd ⟨_, t, herror, rfl⟩ hnone
    · rw [hfails] at hfails'
      cases hfails'
      exact herror

/-- A parse of a text gives a tree or a rejection, or comes to an integer literal that is too long. The
last happens exactly if reading meets such a literal and the parse complains of no token; where
parentheses leave room, if no token before the literal is rejected. -/
theorem parseText_fails_only (room : Nat) (text : String) :
    ((∃ tree, (parseText room text).outcome = .ok tree) ∨
      (∃ e, (parseText room text).outcome = .error (.rejected e)) ∨
      ∃ n, (parseText room text).outcome = .error (.integerTooLong n)) ∧
    (∀ n, (parseText room text).outcome = .error (.integerTooLong n) ↔
      MeetsLongInteger text.toList n ∧
        ¬ ∃ e t, (parseText room text).outcome = .error (.rejected e) ∧ e.token? = some t) ∧
    (guaranteedRoom ≤ room → nesting (goodTokens text) ≤ guaranteedNesting →
      ∀ n, (parseText room text).outcome = .error (.integerTooLong n) ↔
        MeetsLongInteger text.toList n ∧ ¬ ∃ f, RejectsOneOf room (goodTokens text) f) := by
  refine ⟨?_, fun n => parseText_integerTooLong, fun hroom hnesting n => ⟨fun houtcome => ?_, ?_⟩⟩
  · rcases parseText_cases room text with
      ⟨tree, _, htree, -⟩ | ⟨_, _, herror⟩ | ⟨failure, hfails, herror⟩
    · exact .inl ⟨tree, htree⟩
    · exact .inr (.inl ⟨_, herror⟩)
    · rcases tokenize_failures hfails with ⟨e, rfl⟩ | ⟨n, rfl, -⟩
      · exact .inr (.inl ⟨e, herror⟩)
      · exact .inr (.inr ⟨n, herror⟩)
  · have hmeets := (parseText_integerTooLong.mp houtcome).1
    refine ⟨hmeets, fun ⟨f, hf⟩ => ?_⟩
    obtain ⟨hrejects, -⟩ :=
      parseText_of_failing hroom hnesting (tokenize_integerTooLong.mpr hmeets)
    have ⟨_, _, _, _, _, _, hrejected, _⟩ := hf
    rw [hrejects f hf, hrejected] at houtcome
    cases houtcome
  · rintro ⟨hmeets, hnone⟩
    exact (parseText_of_failing hroom hnesting (tokenize_integerTooLong.mpr hmeets)).2 hnone

/-- A statement that is one integer literal, of one digit too many. -/
def longIntegerText : String := String.ofList (List.replicate (maxIntegerDigits + 1) '1' ++ [';'])

theorem longIntegerText_long : LongInteger longIntegerText.toList (maxIntegerDigits + 1) := by
  have hdigits : IsDigits (List.replicate (maxIntegerDigits + 1) '1') := by
    refine ⟨by simp, fun c hc => ?_⟩
    rw [List.eq_of_mem_replicate hc]
    rfl
  have hsep : Separated (List.replicate (maxIntegerDigits + 1) '1') [';'] := by
    rw [List.replicate_succ]
    refine separated_number rfl fun a ha => ?_
    injection ha with ha
    exact ha ▸ by decide
  rw [longIntegerText, String.toList_ofList]
  exact ⟨_, _, rfl, hdigits, hsep, List.length_replicate, Nat.lt_succ_self _⟩

/-- Not every text gives a tree or a rejection. -/
theorem longIntegerText_escapes :
    ¬ ∀ text : String, (∃ tree, (parseText guaranteedRoom text).outcome = .ok tree) ∨
      ∃ e, (parseText guaranteedRoom text).outcome = .error (.rejected e) := by
  intro hall
  have houtcome := parseText_of_longInteger longIntegerText_long guaranteedRoom
  rcases hall longIntegerText with ⟨tree, htree⟩ | ⟨e, he⟩
  · rw [houtcome] at htree
    cases htree
  · rw [houtcome] at he
    cases he

end MflFrontend
