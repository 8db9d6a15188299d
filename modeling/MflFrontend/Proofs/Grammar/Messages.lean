import MflFrontend.Proofs.Grammar.Interleaving
import MflFrontend.Proofs.Grammar.Laws
import MflFrontend.Proofs.Token.Display

/-!
# Messages are single lines

A text may have line feeds anywhere, and the message of a failure has none. What a lexical fault
quotes of the text are digits and points, or one character with its escape; a token is shown with
escapes; and the complaints of the grammar are fixed phrases.

The readers keep a law: a step that fails does so on one line, if that is true of the pulls.
-/

namespace MflFrontend

/-- The message of the failure has no line feed. -/
def Failure.OnOneLine (failure : Failure) : Prop := '\n' ∉ failure.message.toList

/-- Where the pulls fail, they do so on one line. -/
def PullsOnOneLine (ps : List Pull) : Prop :=
  ∀ p ∈ ps, ∀ failure, p.outcome = .error failure → failure.OnOneLine

theorem feed_not_mem_integerText (n : Int) : '\n' ∉ (integerText n).toList := by
  have hdisplay := (Value.int n).feed_not_mem_display
  rwa [Value.display] at hdisplay

/-- Of a rejection, all but the line is its message. -/
theorem onOneLine_rejected {e : ParseError} :
    (Failure.rejected e).OnOneLine ↔ '\n' ∉ e.message.toList := by
  have hline := feed_not_mem_integerText e.line
  show '\n' ∉ ("Line " ++ integerText e.line ++ ": " ++ e.message).toList ↔ _
  simp [hline]

theorem onOneLine_integerTooLong (digits : Nat) : (Failure.integerTooLong digits).OnOneLine := by
  have hlimit := feed_not_mem_integerText maxIntegerDigits
  have hdigits := feed_not_mem_integerText digits
  show '\n' ∉ ("Exceeds the limit (" ++ integerText maxIntegerDigits ++
    " digits) for integer string conversion: value has " ++ integerText digits ++
    " digits; use sys.set_int_max_str_digits() to increase the limit").toList
  simp [hlimit, hdigits]

theorem onOneLine_integerUnwritable : Failure.integerUnwritable.OnOneLine := by
  have hlimit := feed_not_mem_integerText maxIntegerDigits
  show '\n' ∉ unwritableIntegerMessage.toList
  unfold unwritableIntegerMessage
  simp [hlimit]

theorem onOneLine_noTokenRead : Failure.noTokenRead.OnOneLine := by
  show '\n' ∉ "No token has been read yet; call next_token() first".toList
  decide

/-! ## Reading -/

/-- What a lexical fault quotes. -/
def LexFault.quotes : LexFault → List Char
  | malformedReal literal => literal
  | invalidReal literal => literal
  | unexpectedCharacter c => quoted [c]

theorem LexFault.feed_not_mem_message {fault : LexFault} (h : '\n' ∉ fault.quotes) :
    '\n' ∉ fault.message.toList := by
  cases fault with
  | malformedReal literal =>
    have hliteral : '\n' ∉ literal := h
    show '\n' ∉ ("Malformed real literal '" ++ String.ofList literal ++ "'").toList
    simp [hliteral]
  | invalidReal literal =>
    have hliteral : '\n' ∉ literal := h
    show '\n' ∉ ("Invalid real format '" ++ String.ofList literal ++ ".'").toList
    simp [hliteral]
  | unexpectedCharacter c =>
    show '\n' ∉ ("Unexpected character " ++ String.ofList (quoted [c])).toList
    simp [feed_not_mem_quoted]

theorem feed_not_mem_digits (cs : List Char) : '\n' ∉ cs.takeWhile Char.isDigit := by
  intro hmem
  cases List.mem_takeWhile_imp hmem

/-- No line feed is among the characters that a lexical fault is about. -/
theorem feed_not_mem_of_readNumber {whole rest : List Char} {fault : LexFault}
    (hwhole : '\n' ∉ whole)
    (h : (Lexeme.readNumber whole rest).outcome = .error (.lexical fault)) :
    '\n' ∉ fault.message.toList := by
  unfold Lexeme.readNumber at h
  split at h
  · next rest =>
    have hfraction := feed_not_mem_digits rest
    simp only at h
    split at h
    · injection h with h
      injection h with h
      subst h
      refine LexFault.feed_not_mem_message ?_
      simp [LexFault.quotes, hwhole]
    · split at h
      · injection h with h
        injection h with h
        subst h
        refine LexFault.feed_not_mem_message ?_
        simp [LexFault.quotes, hwhole, hfraction]
      · cases h
  · simp only [Lexeme.ofDigits] at h
    split at h
    · cases h
    · cases h

theorem feed_not_mem_of_read {c : Char} {cs : List Char} {fault : LexFault}
    (h : (Lexeme.read c cs).outcome = .error (.lexical fault)) : '\n' ∉ fault.message.toList := by
  unfold Lexeme.read at h
  split at h
  · cases h
  split at h
  · next hdigit =>
    refine feed_not_mem_of_readNumber ?_ h
    rw [← List.takeWhile_cons_of_pos hdigit]
    exact feed_not_mem_digits (c :: cs)
  · split at h
    · cases h
    · injection h with h
      injection h with h
      subst h
      exact LexFault.feed_not_mem_message (feed_not_mem_quoted [c])

theorem Cursor.onOneLine_scan {c : Cursor} {failure : Failure}
    (h : c.scan.outcome = .error failure) : failure.OnOneLine := by
  unfold scan scanLexeme at h
  split at h
  · cases h
  · next a rest _ =>
    simp only at h
    cases hread : (Lexeme.read a rest).outcome with
    | ok made =>
      rw [hread] at h
      cases h
    | error fault =>
      rw [hread] at h
      cases fault with
      | lexical fault =>
        injection h with h
        subst h
        exact onOneLine_rejected.mpr (feed_not_mem_of_read hread)
      | integerTooLong digits =>
        injection h with h
        subst h
        exact onOneLine_integerTooLong digits

theorem Cursor.pullsOnOneLine (c : Cursor) : PullsOnOneLine c.pulls := by
  induction c using Cursor.pulls.induct with
  | case1 c htaken =>
    rw [pulls, dif_pos htaken]
    intro p hp failure hfailure
    rw [List.mem_singleton.mp hp] at hfailure
    exact onOneLine_scan hfailure
  | case2 c htaken ih =>
    rw [pulls_of_taken htaken]
    intro p hp failure hfailure
    rcases List.mem_cons.mp hp with rfl | hp
    · exact onOneLine_scan hfailure
    · exact ih p hp failure hfailure

/-- Where a text does not become tokens, the message is one line. -/
theorem onOneLine_of_tokenize {text : String} {failure : Failure}
    (h : tokenize text = .error failure) : failure.OnOneLine := by
  obtain ⟨front, p, more, hpulls, -, hp⟩ := Pull.tokens_eq_error h
  have hmem : p ∈ (Cursor.start text).pulls := by
    rw [hpulls]
    exact List.mem_append_right front List.mem_cons_self
  exact (Cursor.start text).pullsOnOneLine p hmem failure hp

/-! ## Parsing -/

theorem Complaint.OneLine.about (complaint : Complaint) [h : complaint.OneLine] (t : Token) :
    (complaint.about t).OnOneLine := by
  by_cases ht : t.IsDescribable
  · have hcomplaint := h.feed_not_mem
    have hfound : '\n' ∉ t.describeFound.toList := by
      unfold Token.describeFound
      split
      · decide
      · exact t.feed_not_mem_display
    rw [complaint.about_of_describable ht]
    refine onOneLine_rejected.mpr ?_
    show '\n' ∉ (complaint.describe ++ ", found " ++ t.describeFound).toList
    simp [hcomplaint, hfound]
  · rw [Complaint.about, if_neg ht]
    exact onOneLine_integerUnwritable

namespace Parse

/-- What fails does so on one line, if the pulls do. -/
def Law.telling : Law where
  good s s' := PullsOnOneLine (s.source.final :: s.source.ahead) →
    PullsOnOneLine (s'.source.final :: s'.source.ahead)
  bad s failure _ := PullsOnOneLine (s.source.final :: s.source.ahead) → failure.OnOneLine
  refl _ := id
  trans h h' hs := h' (h hs)
  trans_bad h h' hs := h' (h hs)

instance telling_record (r : LogRecord) : Obeys .telling (record r) :=
  ⟨fun s => Yields.of_ok (u := { s with log := s.log ++ [r] }) rfl id⟩

instance telling_primitive : Law.telling.Primitive where
  current := by
    constructor
    intro s
    cases hcurrent : s.source.current? with
    | some t => exact Yields.of_ok (current_of_current? hcurrent) id
    | none => exact Yields.of_error (current_of_none hcurrent) fun _ => onOneLine_noTokenRead
  skip := by
    constructor
    intro s
    cases hpull : s.source.pull.outcome with
    | ok t =>
      refine Yields.of_ok (skip_of_ok hpull) fun hs p hp => hs p ?_
      rcases List.mem_cons.mp hp with hp | hp
      · exact List.mem_cons.mpr (.inl hp)
      · exact List.mem_cons_of_mem _ (List.mem_of_mem_tail hp)
    | error failure =>
      refine Yields.of_error (skip_of_error hpull) fun hs => hs s.source.pull ?_ failure hpull
      unfold TokenSource.pull
      cases s.source.ahead <;> simp
  reject complaint _ := by
    constructor
    intro s
    cases hcurrent : s.source.current? with
    | some t =>
      exact Yields.of_error (reject_of_current? hcurrent complaint) fun _ =>
        Complaint.OneLine.about complaint t
    | none =>
      exact Yields.of_error (reject_of_none hcurrent complaint) fun _ => onOneLine_noTokenRead

instance telling_wholeProgram (d : Nat) : Obeys .telling (wholeProgram d) := by
  unfold wholeProgram
  infer_instance

end Parse

/-- The pulls of a text fail on one line, the one that repeats included. -/
theorem TokenSource.ofText_onOneLine (text : String) :
    PullsOnOneLine ((ofText text).final :: (ofText text).ahead) := by
  have hpulls := (Cursor.start text).pullsOnOneLine
  have hfinal : (ofText text).final ∈
      .ofToken { kind := .endOfInput, line := 1 } :: (Cursor.start text).pulls :=
    List.getLastD_mem_cons
  intro p hp failure hfailure
  rcases List.mem_cons.mp hp with rfl | hp
  · rcases List.mem_cons.mp hfinal with hlast | hlast
    · rw [hlast] at hfailure
      cases hfailure
    · exact hpulls _ hlast failure hfailure
  · exact hpulls p hp failure hfailure

/-- Where a parse of a text fails, the message is one line. -/
theorem onOneLine_of_parseText {room : Nat} {text : String} {failure : Failure}
    (h : (parseText room text).outcome = .error failure) : failure.OnOneLine := by
  have htelling : Parse.Obeys .telling (Parse.wholeProgram (factorRoom room)) := inferInstance
  obtain ⟨s, hrun⟩ := run_of_parseSource_error h
  exact (htelling.yields _).bad_of_error hrun (TokenSource.ofText_onOneLine text)

end MflFrontend
