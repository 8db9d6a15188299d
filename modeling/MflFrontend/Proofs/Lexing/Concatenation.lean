import MflFrontend.Proofs.Lexing.Gaps

/-!
# Texts one below the other

What reading brings does not depend on the line that it starts on, except for the lines in the
tokens and errors. A line feed ends whatever stands before it, so a text that follows another one
below it is read as it is on its own, only on lines further down.
-/

namespace MflFrontend

/-- The location, `d` lines further down. -/
def Location.shift (d : Int) (l : Location) : Location := ⟨l.line + d, l.column⟩

/-- The token, `d` lines further down. -/
def Token.shift (d : Int) (t : Token) : Token := { t with line := t.line + d }

/-- The error, `d` lines further down; so is its token. -/
def ParseError.shift (d : Int) : ParseError → ParseError
  | lexical fault line => .lexical fault (line + d)
  | unexpected complaint found line => .unexpected complaint (found.shift d) (line + d)

/-- The failure, `d` lines further down. Only a rejection has a line. -/
def Failure.shift (d : Int) : Failure → Failure
  | rejected e => .rejected (e.shift d)
  | integerTooLong digits => .integerTooLong digits
  | integerUnwritable => .integerUnwritable
  | noTokenRead => .noTokenRead

/-- The pull, `d` lines further down. -/
def Pull.shift (d : Int) (p : Pull) : Pull where
  outcome := (p.outcome.map (Token.shift d)).mapError (Failure.shift d)
  line := p.line + d
  frames := p.frames

@[simp] theorem Token.shift_kind (d : Int) (t : Token) : (t.shift d).kind = t.kind := rfl

@[simp] theorem Token.shift_line (d : Int) (t : Token) : (t.shift d).line = t.line + d := rfl

namespace Pull

variable {d : Int} {p : Pull} {ps : List Pull}

theorem shift_ok {t : Token} (h : p.outcome = .ok t) : (p.shift d).outcome = .ok (t.shift d) := by
  simp only [shift, h, Except.map, Except.mapError]

theorem shift_error {failure : Failure} (h : p.outcome = .error failure) :
    (p.shift d).outcome = .error (failure.shift d) := by
  simp only [shift, h, Except.map, Except.mapError]

/-- Pulls further down become tokens further down. -/
theorem tokens_shift_ok {ts : List Token} (h : tokens ps = .ok ts) :
    tokens (ps.map (shift d)) = .ok (ts.map (Token.shift d)) := by
  rw [tokens_eq_ok_iff] at h ⊢
  induction h with
  | nil => exact .nil
  | cons hp _ ih => exact .cons (shift_ok hp) ih

theorem tokens_shift_error {failure : Failure} (h : tokens ps = .error failure) :
    tokens (ps.map (shift d)) = .error (failure.shift d) := by
  obtain ⟨front, p, more, rfl, hfront, hp⟩ := tokens_eq_error h
  have hfront' := (tokens_eq_ok_iff _ _).mp (tokens_shift_ok (d := d) ((tokens_eq_ok_iff _ _).mpr hfront))
  rw [List.map_append, List.map_cons]
  exact tokens_of_failing hfront' (shift_error hp)

/-- Behind tokens, the outcome is that of the rest. -/
theorem tokens_append_ok {front : List Pull} {us ts : List Token} (hfront : Brings front us)
    (h : tokens ps = .ok ts) : tokens (front ++ ps) = .ok (us ++ ts) := by
  rw [tokens_eq_ok_iff] at h ⊢
  exact hfront.append h

theorem tokens_append_error {front : List Pull} {us : List Token} {failure : Failure}
    (hfront : Brings front us) (h : tokens ps = .error failure) :
    tokens (front ++ ps) = .error failure := by
  obtain ⟨qs, p, more, rfl, hqs, hp⟩ := tokens_eq_error h
  rw [← List.append_assoc]
  exact tokens_of_failing (hfront.append hqs) hp

end Pull

namespace Cursor

variable {c c' : Cursor} {d : Int}

theorem afterAll_shift (l : Location) (cs : List Char) :
    (l.shift d).afterAll cs = (l.afterAll cs).shift d := by
  induction cs generalizing l with
  | nil => rfl
  | cons c cs ih =>
    rw [Location.afterAll_cons, Location.afterAll_cons, ← ih]
    congr 1
    unfold Location.after Location.shift
    by_cases hc : c = '\n'
    · simp only [hc, if_true, Location.mk.injEq, and_true]
      omega
    · simp only [hc, if_false]

/-- The second cursor stands before the same characters, `d` lines further down. -/
structure Below (d : Int) (c c' : Cursor) : Prop where
  /-- The characters to come are the same. -/
  rest : c'.rest = c.rest
  /-- The location is further down. -/
  location : c'.toLocation = c.toLocation.shift d

theorem Below.pass (h : Below d c c') (n : Nat) : Below d (c.pass n) (c'.pass n) := by
  constructor
  · rw [rest_pass, rest_pass, h.rest]
  · show c'.toLocation.afterAll (c'.rest.take n) = _
    rw [h.rest, h.location, afterAll_shift]
    rfl

/-- One reading further down brings the same, and stops at the same characters. -/
theorem Below.scan (h : Below d c c') :
    c'.scan.outcome = (Pull.shift d c.pull).outcome ∧
      c'.scan.taken = c.scan.taken ∧ Below d c.scan.cursor c'.scan.cursor := by
  have hskip : Below d c.skipTrivia c'.skipTrivia := by
    unfold skipTrivia
    rw [h.rest]
    exact h.pass _
  have hline : c'.skipTrivia.line = c.skipTrivia.line + d := by rw [hskip.location]; rfl
  have hcolumn : c'.skipTrivia.column = c.skipTrivia.column := by rw [hskip.location]; rfl
  unfold Cursor.pull Cursor.scan scanLexeme
  rw [hskip.rest]
  cases c.skipTrivia.rest with
  | nil =>
    refine ⟨?_, rfl, hskip⟩
    simp only [sentinel, Pull.shift, Except.map, Except.mapError, Token.shift, hline, hcolumn]
  | cons a as =>
    refine ⟨?_, rfl, hskip.pass _⟩
    simp only
    cases (Lexeme.read a as).outcome with
    | ok token =>
      simp only [locate, Pull.shift, Except.map, Except.mapError, Token.shift, hline, hcolumn]
    | error fault =>
      cases fault <;>
        simp only [locate, Pull.shift, Except.map, Except.mapError, Failure.shift,
          ParseError.shift, hline]

/-- Reading again and again further down brings the same, further down. -/
theorem Below.pulls (h : Below d c c') : c'.pulls = c.pulls.map (Pull.shift d) := by
  refine pulls_map (fun c c' h => ?_) h
  obtain ⟨houtcome, htaken, hcursor⟩ := h.scan
  have hline : c'.scan.cursor.line = c.scan.cursor.line + d := by rw [hcursor.location]; rfl
  have hframes : c'.frames = c.frames := by
    unfold frames trivia
    rw [h.rest]
  exact ⟨by rw [pull, houtcome, hline, hframes]; rfl, htaken, hcursor⟩

end Cursor

/-! ## The text behind a line feed -/

/-- Whether trivia stand in front depends on the first character alone. -/
theorem triviaLength_head {a : Char} {as : List Char} (h : triviaLength false (a :: as) = 0)
    (bs : List Char) : triviaLength false (a :: bs) = 0 := by
  by_cases hblank : isTriviaBlank a = true
  · rw [triviaLength_blank hblank] at h
    exact absurd h (Nat.succ_ne_zero _)
  · by_cases hsharp : a = '#'
    · rw [hsharp, triviaLength_sharp] at h
      exact absurd h (Nat.succ_ne_zero _)
    · exact triviaLength_front (by simpa using hblank) hsharp bs

/-- Trivia at the end of a text, with a line feed, are trivia before any other text. -/
theorem Trivia.feed {w : List Char} (h : Trivia w []) (rest : List Char) :
    Trivia (w ++ ['\n']) rest := by
  refine Trivia.append (h.change fun c hc => ?_) (.blank rfl .nil)
  injection hc with hc
  exact .inl hc.symm

theorem locationAt_feed (before : List Char) :
    locationAt (before ++ ['\n']) = Location.shift (lineAt before) {} := by
  rw [← locationAt_after]
  unfold locationAt Location.after Location.shift
  simp only [if_true, Location.mk.injEq, and_true]
  omega

/-- The texts one below the other. -/
theorem toList_concat (s t : String) :
    (s ++ "\n" ++ t).toList = s.toList ++ '\n' :: t.toList := by
  simp [String.toList_append]

/-- Behind a text that becomes tokens, the text below is read as on its own, further down. What is
read before its sentinel is what is read on its own; only the first token of the text below may take
other frames. -/
theorem pulls_concat {s : String} {us : List Token} (hs : tokenize s = .ok us) (t : String) :
    ∃ front last p more frames, Brings front us.dropLast ∧
      (Cursor.start s).pulls = front ++ [last] ∧ (Cursor.start t).pulls = p :: more ∧
      (Cursor.start (s ++ "\n" ++ t)).pulls =
        front ++ ({ p with frames } :: more).map (Pull.shift (lineAt s.toList)) := by
  obtain ⟨fs, w, hfs, hshort, hw, hts⟩ := factors_of_tokenize hs
  obtain ⟨vs, e, rfl⟩ := hts.concat
  rw [List.dropLast_concat]
  have hstart : (Cursor.start (s ++ "\n" ++ t)).toLocation = locationAt [] := rfl
  have hfs' : Factors (s ++ "\n" ++ t).toList fs (w ++ '\n' :: t.toList) := by
    rw [toList_concat]
    refine hfs.extend fun c hc => ?_
    injection hc with hc
    exact hc ▸ .feed
  obtain ⟨hbrings, -, d, hpulls₁, hrest₁, -, -⟩ :=
    hfs.pulls_front hshort (c := .start s) rfl rfl hts
  obtain ⟨line, frames, hend⟩ := Cursor.pulls_end (c := d) (hrest₁ ▸ hw)
  obtain ⟨-, passed, c', hpulls, hrest, htext, hat⟩ := hfs'.pulls_front hshort hstart rfl hts
  have hpassed : s.toList = passed ++ w := by
    rw [toList_concat, ← List.append_assoc] at htext
    exact List.append_cancel_right htext
  have hbehind : c'.rest = (w ++ ['\n']) ++ t.toList := by rw [hrest]; simp
  -- behind the line feed the cursor stands at the start of the text below, further down
  have hbelow : Cursor.Below (lineAt s.toList) (Cursor.start t) (c'.pass (w ++ ['\n']).length) := by
    constructor
    · exact Cursor.rest_pass_left hbehind
    · rw [Cursor.location_pass hat hbehind, List.nil_append, ← List.append_assoc, ← hpassed,
        locationAt_feed]
      rfl
  obtain ⟨p, more, hfront, hskipped⟩ := Cursor.pulls_skip hbehind (hw.feed _)
  have hmap := hbelow.pulls
  rw [Cursor.pulls_eq (.start t), List.map_cons, hskipped] at hmap
  injection hmap with hp hmore
  refine ⟨_, _, _, _, c'.frames, hbrings, by rw [hpulls₁, hend], Cursor.pulls_eq _, ?_⟩
  rw [hpulls, hfront, hp, hmore]
  rfl

/-- A text that does not become tokens fails alike above another one. -/
theorem tokenize_above {s : String} {failure : Failure} (hs : tokenize s = .error failure)
    (t : String) : tokenize (s ++ "\n" ++ t) = .error failure := by
  obtain ⟨fs, w, r, hfs, hshort, hw, hr⟩ := exists_factors s.toList
  cases hr with
  | stop =>
    rw [List.append_nil] at hfs
    obtain ⟨ts, hts⟩ := hfs.exists_tokens [] w
    rw [hfs.tokenize_ok hw hshort hts] at hs
    cases hs
  | @fault a as fault hfront hfault =>
    have hfs' : Factors (s ++ "\n" ++ t).toList fs (w ++ a :: (as ++ '\n' :: t.toList)) := by
      rw [toList_concat, ← List.cons_append, ← List.append_assoc]
      refine hfs.extend fun c hc => ?_
      injection hc with hc
      exact hc ▸ .feed
    have hw' : Trivia w (a :: (as ++ '\n' :: t.toList)) := hw.change fun c hc => .inr hc
    have hfault' : (Lexeme.read a (as ++ '\n' :: t.toList)).outcome = .error fault := by
      rw [read_before_trivia fun c hc => ?_, hfault]
      injection hc with hc
      exact hc ▸ .feed
    obtain ⟨passed, htext, hfails⟩ := hfs.tokenize_fault hshort hw hfront hfault
    obtain ⟨passed', htext', hfails'⟩ :=
      hfs'.tokenize_fault hshort hw' (triviaLength_head hfront _) hfault'
    have hpassed : passed' = passed := by
      rw [toList_concat, htext, List.append_assoc] at htext'
      exact (List.append_cancel_right htext').symm
    rw [hfails', hpassed, ← hfails, hs]

/-- Trivia alone become the sentinel alone. -/
theorem tokenize_of_trivia {t : String} (h : Trivia t.toList []) :
    ∃ e, tokenize t = .ok [e] ∧ e.kind = .endOfInput := by
  obtain ⟨line, frames, hpulls⟩ := Cursor.pulls_end (c := Cursor.start t) h
  refine ⟨((Cursor.start t).pass t.toList.length).sentinel, ?_, rfl⟩
  rw [tokenize, hpulls]
  rfl

/-- Only trivia become the sentinel alone. -/
theorem trivia_of_tokenize {t : String} {e : Token} (h : tokenize t = .ok [e]) :
    Trivia t.toList [] := by
  obtain ⟨fs, w, hfs, -, hw, hts⟩ := factors_of_tokenize h
  rw [← List.nil_append [e]] at hts
  obtain rfl := hts.eq_nil_iff.mp rfl
  generalize t.toList = text at hfs
  cases hfs
  exact hw

/-- A text below one that becomes tokens brings its own tokens or its own error, further down. -/
theorem tokenize_concat {s : String} {us : List Token} (hs : tokenize s = .ok us) (t : String) :
    (∀ ts, tokenize t = .ok ts → tokenize (s ++ "\n" ++ t) =
      .ok (us.dropLast ++ ts.map (Token.shift (lineAt s.toList)))) ∧
    (∀ failure, tokenize t = .error failure →
      tokenize (s ++ "\n" ++ t) = .error (failure.shift (lineAt s.toList))) := by
  obtain ⟨front, last, p, more, frames, hfront, -, ht, hpulls⟩ := pulls_concat hs t
  have htokens : Pull.tokens ({ p with frames } :: more) = tokenize t := by
    rw [tokenize, ht]
    rfl
  constructor
  · intro ts hts
    rw [tokenize, hpulls]
    exact Pull.tokens_append_ok hfront (Pull.tokens_shift_ok (htokens.trans hts))
  · intro failure hfailure
    rw [tokenize, hpulls]
    exact Pull.tokens_append_error hfront (Pull.tokens_shift_error (htokens.trans hfailure))

end MflFrontend
