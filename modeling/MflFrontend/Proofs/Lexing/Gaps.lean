import MflFrontend.Proofs.Lexing.Pulls

/-!
# Trivia between lexemes

What stands between two lexemes only matters by its end. Trivia stay trivia, and a lexeme stays
separated, as long as what follows begins as before or begins new trivia. So the factors of a text
are read one after the other, whatever follows them, up to where reading halts: at the end of the
text, or before characters that are no token.
-/

namespace MflFrontend

theorem Trivia.opens {w rest : List Char} (h : Trivia w rest) {c : Char} (hc : w.head? = some c) :
    OpensTrivia c := by
  cases h with
  | nil => cases hc
  | blank hblank _ =>
    injection hc with hc
    exact hc ▸ .inl hblank
  | comment _ _ _ =>
    injection hc with hc
    exact hc ▸ .inr rfl

/-- Trivia stay trivia where something else follows that ends an open comment or begins alike. -/
theorem Trivia.change {w rest rest' : List Char} (h : Trivia w rest)
    (hhead : ∀ c, rest'.head? = some c → c = '\n' ∨ rest.head? = some c) : Trivia w rest' := by
  induction h with
  | nil => exact .nil
  | blank hc _ ih => exact .blank hc (ih hhead)
  | @comment body w rest hbody hend _ ih =>
    refine .comment hbody (fun c hc => ?_) (ih hhead)
    cases w with
    | nil =>
      rcases hhead c hc with rfl | hc
      · rfl
      · exact hend c hc
    | cons a w => exact hend c hc

/-- Trivia before a lexeme do not depend on what follows it. -/
theorem Trivia.behind {w l rest : List Char} (h : Trivia w (l ++ rest)) (hl : l ≠ [])
    (rest' : List Char) : Trivia w (l ++ rest') := by
  obtain ⟨a, l, rfl⟩ := List.exists_cons_of_ne_nil hl
  exact h.change fun c hc => .inr hc

theorem Trivia.append {v w rest : List Char} (hv : Trivia v (w ++ rest)) (hw : Trivia w rest) :
    Trivia (v ++ w) rest := by
  generalize htext : w ++ rest = text at hv
  induction hv with
  | nil => exact hw
  | blank hc _ ih => exact .blank hc (ih htext)
  | @comment body v text hbody hend _ ih =>
    rw [List.cons_append, List.append_assoc]
    refine .comment hbody (fun c hc => hend c ?_) (ih htext)
    rwa [← htext, ← List.append_assoc]

/-- A lexeme stays separated where trivia begin, or something that begins alike. -/
theorem Separated.change {l rest rest' : List Char} (h : Separated l rest)
    (hhead : ∀ c, rest'.head? = some c → OpensTrivia c ∨ rest.head? = some c) :
    Separated l rest' := by
  refine ⟨fun hword c hc => ?_, fun hnumber c hc => ?_, fun hangle hc => ?_⟩
  · rcases hhead c hc with hopens | hc
    · exact hopens.stops.1
    · exact h.word hword c hc
  · rcases hhead c hc with hopens | hc
    · exact ⟨hopens.stops.2.1, hopens.stops.2.2.1⟩
    · exact h.number hnumber c hc
  · rcases hhead _ hc with hopens | hc
    · exact hopens.stops.2.2.2 rfl
    · exact h.angle hangle hc

theorem IsLexeme.ne_nil {l : List Char} (h : IsLexeme l) : l ≠ [] :=
  List.ne_nil_of_length_pos h.length_pos

/-! ## Reading up to trivia -/

section Front

variable {cs more : List Char} (hmore : ∀ x, more.head? = some x → OpensTrivia x)

include hmore

theorem takeWhile_before_trivia {p : Char → Bool} (hp : ∀ x, OpensTrivia x → p x = false) :
    (cs ++ more).takeWhile p = cs.takeWhile p := by
  induction cs with
  | nil =>
    cases more with
    | nil => rfl
    | cons x more =>
      rw [List.nil_append, List.takeWhile_cons_of_neg (by rw [hp x (hmore x rfl)]; decide),
        List.takeWhile_nil]
  | cons c cs ih => rw [List.cons_append, List.takeWhile_cons, List.takeWhile_cons, ih]

theorem readNumber_before_trivia (whole : List Char) :
    Lexeme.readNumber whole (cs ++ more) = Lexeme.readNumber whole cs := by
  have hwhole : ∀ rest : List Char, rest.head? ≠ some '.' →
      Lexeme.readNumber whole rest = ⟨whole.length, Lexeme.ofDigits whole⟩ := by
    intro rest hrest
    unfold Lexeme.readNumber
    split
    · exact absurd rfl hrest
    · rfl
  cases cs with
  | nil =>
    rw [List.nil_append, hwhole more fun hc => (hmore _ hc).stops.2.2.1 rfl, hwhole [] nofun]
  | cons c cs =>
    by_cases hpoint : c = '.'
    · subst hpoint
      have hlen : (cs.takeWhile Char.isDigit).length ≤ cs.length :=
        (List.takeWhile_prefix _).length_le
      have hsecond : ((cs ++ more).drop (cs.takeWhile Char.isDigit).length).head? == some '.' ↔
          (cs.drop (cs.takeWhile Char.isDigit).length).head? == some '.' := by
        rw [List.drop_append_of_le_length hlen, List.head?_append]
        cases (cs.drop (cs.takeWhile Char.isDigit).length).head? with
        | some d => rfl
        | none =>
          simp only [Option.none_or, beq_iff_eq, reduceCtorEq, iff_false]
          exact fun hc => (hmore _ hc).stops.2.2.1 rfl
      simp only [List.cons_append, Lexeme.readNumber,
        takeWhile_before_trivia hmore (fun _ hx => hx.stops.2.1), hsecond]
    · have hfront : (c :: cs).head? ≠ some '.' := fun h => hpoint (Option.some.inj h)
      have hfront' : (c :: (cs ++ more)).head? ≠ some '.' := fun h => hpoint (Option.some.inj h)
      rw [List.cons_append, hwhole _ hfront, hwhole _ hfront']

theorem sign?_before_trivia (c : Char) :
    Lexeme.sign? (c :: (cs ++ more)) = Lexeme.sign? (c :: cs) := by
  cases cs with
  | nil =>
    cases more with
    | nil => rfl
    | cons x more =>
      have hnone : TokenKind.ofSpelling? [c, x] = none := by
        cases h : TokenKind.ofSpelling? [c, x] with
        | none => rfl
        | some k =>
          have hlexeme : IsLexeme [c, x] := isLexeme_of_spelling (mem_of_ofSpelling? h)
          exact absurd (hmore x rfl) (hlexeme.not_opensTrivia (by simp))
      simp [Lexeme.sign?, Lexeme.spelling?, hnone]
  | cons d cs => simp [Lexeme.sign?, Lexeme.spelling?]

/-- What is read does not go beyond the beginning of trivia, nor depend on what follows it. -/
theorem read_before_trivia {c : Char} : Lexeme.read c (cs ++ more) = Lexeme.read c cs := by
  have hdigits : (cs.takeWhile Char.isDigit).length ≤ cs.length :=
    (List.takeWhile_prefix _).length_le
  unfold Lexeme.read
  simp only [takeWhile_before_trivia hmore (fun _ hx => hx.stops.1),
    takeWhile_before_trivia hmore (fun _ hx => hx.stops.2.1), sign?_before_trivia hmore,
    List.length_cons, List.drop_succ_cons, List.drop_append_of_le_length hdigits,
    readNumber_before_trivia hmore]

end Front

/-! ## Factors -/

/-- Factors stay factors where trivia follow. -/
theorem Factors.extend {text last : List Char} {fs : List Factor} (h : Factors text fs last)
    {more : List Char} (hmore : ∀ c, more.head? = some c → OpensTrivia c) :
    Factors (text ++ more) fs (last ++ more) := by
  induction h with
  | nil => exact .nil
  | @cons gap l rest last fs hgap hl hsep _ ih =>
    have hsep' : Separated l (rest ++ more) := hsep.change fun c hc => by
      cases rest with
      | nil => exact .inl (hmore c hc)
      | cons a rest => exact .inr hc
    rw [List.append_assoc, List.append_assoc]
    exact .cons (hgap.behind hl.ne_nil _) hl hsep' ih

/-- Where reading halts: at the end, or before characters that are no token. -/
inductive Halts : List Char → Prop where
  /-- The end. -/
  | stop : Halts []
  /-- Characters that are no token. -/
  | fault {a : Char} {as : List Char} {fault : ScanFault}
      (hfront : triviaLength false (a :: as) = 0)
      (hfault : (Lexeme.read a as).outcome = .error fault) : Halts (a :: as)

/-- Every text begins with factors, up to where reading halts. -/
theorem exists_factors (text : List Char) :
    ∃ fs w r, Factors text fs (w ++ r) ∧ ShortIntegers fs ∧ Trivia w r ∧ Halts r := by
  induction hn : text.length using Nat.strongRecOn generalizing text with
  | ind n ih =>
    obtain ⟨⟨gap, behind, rfl, hgap, hfront⟩, -⟩ := trivia_split text
    have hempty : ShortIntegers [] := fun f hf => absurd hf List.not_mem_nil
    cases behind with
    | nil => exact ⟨[], gap, [], .nil, hempty, hgap, .stop⟩
    | cons a as =>
      rcases read_cases a as with ⟨l, rest, kind, value, heq, hl, hsep, hlength, -, -⟩ | ⟨fault, hfault⟩
      · rw [heq] at hgap hn ⊢
        have hpos := hl.length_pos
        rw [List.length_append, List.length_append] at hn
        obtain ⟨fs, w, r, hfs, hshort, hw, hr⟩ := ih rest.length (by omega) rest rfl
        refine ⟨⟨gap, l⟩ :: fs, w, r, .cons hgap hl hsep hfs, fun f hf => ?_, hw, hr⟩
        rcases List.mem_cons.mp hf with rfl | hf
        · exact hlength
        · exact hshort f hf
      · exact ⟨[], gap, a :: as, .nil, hempty, hgap, .fault hfront hfault⟩

theorem TokensOf.concat {before last : List Char} {fs : List Factor} {ts : List Token}
    (h : TokensOf before fs last ts) : ∃ us e, ts = us ++ [e] := by
  induction h with
  | nil => exact ⟨[], _, rfl⟩
  | cons _ _ ih =>
    obtain ⟨us, e, rfl⟩ := ih
    exact ⟨_ :: us, e, rfl⟩

/-- Each factor has one token, and there is the sentinel. -/
theorem TokensOf.length_eq {before last : List Char} {fs : List Factor} {us : List Token} {e : Token}
    (h : TokensOf before fs last (us ++ [e])) : us.length = fs.length := by
  suffices hall : ∀ ts, TokensOf before fs last ts → ts.length = fs.length + 1 by
    simpa using hall _ h
  intro ts hts
  clear h
  induction hts with
  | nil => rfl
  | cons _ _ ih => rw [List.length_cons, List.length_cons, ih]

theorem TokensOf.eq_nil_iff {before last : List Char} {fs : List Factor} {us : List Token} {e : Token}
    (h : TokensOf before fs last (us ++ [e])) : us = [] ↔ fs = [] := by
  rw [← List.length_eq_zero_iff, h.length_eq, List.length_eq_zero_iff]

/-! ## Pulls -/

/-- The failure that a fault on the line comes to. -/
def ScanFault.failureAt (line : Int) : ScanFault → Failure
  | lexical fault => .rejected (.lexical fault line)
  | integerTooLong digits => .integerTooLong digits

namespace Cursor

theorem pass_pass (c : Cursor) (m n : Nat) : (c.pass m).pass n = c.pass (m + n) := by
  unfold pass
  simp only [List.take_add, List.drop_drop, Location.afterAll_append, List.length_append,
    Nat.add_assoc]

/-- Reading begins behind the trivia in front. -/
theorem scan_skip {c : Cursor} {w behind : List Char} (hrest : c.rest = w ++ behind)
    (hw : Trivia w behind) : (c.pass w.length).scan = c.scan := by
  have hcount : triviaLength false c.rest = w.length + triviaLength false behind := by
    rw [hrest, hw.triviaLength_append]
  unfold scan skipTrivia
  rw [hcount, rest_pass_left hrest, pass_pass]

/-- Reading from behind the trivia brings the same; only the first pull may take other frames. -/
theorem pulls_skip {c : Cursor} {w behind : List Char} (hrest : c.rest = w ++ behind)
    (hw : Trivia w behind) : ∃ p more, c.pulls = { p with frames := c.frames } :: more ∧
      (c.pass w.length).pulls = p :: more := by
  refine ⟨(c.pass w.length).pull, _, ?_, pulls_eq _⟩
  rw [pulls_eq, pull, pull, scan_skip hrest hw]

/-- Where nothing but trivia is left, the only pull brings the sentinel. -/
theorem pulls_end {c : Cursor} (h : Trivia c.rest []) :
    ∃ line frames, c.pulls = [⟨.ok (c.pass c.rest.length).sentinel, line, frames⟩] := by
  have hscan := scan_end h
  rw [pulls, dif_pos (by rw [hscan]), pull, hscan]
  exact ⟨_, _, rfl⟩

/-- Where characters are no token, the first pull fails. -/
theorem pulls_fault {c : Cursor} {w as : List Char} {a : Char} {fault : ScanFault}
    (hrest : c.rest = w ++ a :: as) (hw : Trivia w (a :: as))
    (hfront : triviaLength false (a :: as) = 0)
    (hfault : (Lexeme.read a as).outcome = .error fault) :
    ∃ p more, c.pulls = p :: more ∧
      p.outcome = .error (fault.failureAt (c.pass w.length).line) := by
  have houtcome : c.scan.outcome = .error (fault.failureAt (c.pass w.length).line) := by
    rw [scan_front hrest hw hfront, hfault]
    cases fault <;> rfl
  rw [pulls]
  split
  · exact ⟨_, [], rfl, houtcome⟩
  · exact ⟨_, _, rfl, houtcome⟩

end Cursor

/-- The pulls that bring the tokens of factors. -/
def frontPulls (before : List Char) : List Factor → List Token → List Pull
  | f :: fs, t :: ts =>
    factorPull before f.gap f.lexeme t :: frontPulls (before ++ f.gap ++ f.lexeme) fs ts
  | _, _ => []

/-- Factors bring their tokens, and what is pulled behind them is what a cursor there pulls. -/
theorem Factors.pulls_front {text last : List Char} {fs : List Factor} (h : Factors text fs last)
    (hshort : ShortIntegers fs) {before final : List Char} {c : Cursor}
    (hat : c.toLocation = locationAt before) (hrest : c.rest = text) {us : List Token} {e : Token}
    (hts : TokensOf before fs final (us ++ [e])) :
    Brings (frontPulls before fs us) us ∧ ∃ passed, ∃ c' : Cursor,
      c.pulls = frontPulls before fs us ++ c'.pulls ∧ c'.rest = last ∧
      text = passed ++ last ∧ c'.toLocation = locationAt (before ++ passed) := by
  induction h generalizing before c us with
  | @nil text =>
    generalize htokens : us ++ [e] = ts at hts
    cases hts with
    | nil =>
      obtain ⟨rfl, -⟩ := List.append_inj' (htokens.trans (List.nil_append _).symm) rfl
      exact ⟨.nil, [], c, rfl, hrest, rfl, by rw [hat, List.append_nil]⟩
  | @cons gap l rest last fs hgap hl hsep _ ih =>
    generalize htokens : us ++ [e] = ts at hts
    cases hts with
    | @cons _ _ _ _ _ kind value ts hdenotes hts =>
      obtain ⟨us', e', rfl⟩ := hts.concat
      obtain ⟨rfl, ⟨⟩⟩ := List.append_inj' (htokens.trans (List.cons_append).symm) rfl
      obtain ⟨c₁, hpulls₁, hnext, hat₁⟩ :=
        Cursor.pulls_factor hat hrest hgap hl hsep hdenotes (hshort _ List.mem_cons_self)
      obtain ⟨hfront, passed, c', hpulls, hlast', htext, hat'⟩ :=
        ih (fun f hf => hshort f (List.mem_cons_of_mem _ hf)) hat₁ hnext hts
      refine ⟨.cons rfl hfront, gap ++ (l ++ passed), c', ?_, hlast', ?_, ?_⟩
      · rw [hpulls₁, hpulls]
        rfl
      · rw [htext]
        simp
      · rw [hat']
        simp

/-- Where reading halts before the end, the text fails to become tokens, behind the tokens of the
factors. -/
theorem Factors.fails_behind {text : String} {w as : List Char} {a : Char} {fs : List Factor}
    {fault : ScanFault} (h : Factors text.toList fs (w ++ a :: as)) (hshort : ShortIntegers fs)
    (hw : Trivia w (a :: as)) (hfront : triviaLength false (a :: as) = 0)
    (hfault : (Lexeme.read a as).outcome = .error fault) {final : List Char} {us : List Token}
    {e : Token} (hts : TokensOf [] fs final (us ++ [e])) :
    Pull.goodTokens (Cursor.start text).pulls = us ∧ ∃ passed, text.toList = passed ++ a :: as ∧
      tokenize text = .error (fault.failureAt (lineAt passed)) := by
  have hstart : (Cursor.start text).toLocation = locationAt [] := rfl
  obtain ⟨hbrings, passed, c', hpulls, hrest', htext, hat'⟩ := h.pulls_front hshort hstart rfl hts
  obtain ⟨p, more, hpulls', hp⟩ := Cursor.pulls_fault hrest' hw hfront hfault
  rw [Cursor.location_pass hat' hrest', List.nil_append] at hp
  refine ⟨?_, passed ++ w, by rw [htext]; simp, ?_⟩
  · rw [hpulls, hpulls', Pull.goodTokens_append hbrings, Pull.goodTokens_failing hp, List.append_nil]
  · rw [tokenize, hpulls, hpulls', Pull.tokens_of_failing hbrings hp]
    rfl

/-- Where reading halts before the end, the text fails to become tokens. -/
theorem Factors.tokenize_fault {text : String} {w as : List Char} {a : Char} {fs : List Factor}
    {fault : ScanFault} (h : Factors text.toList fs (w ++ a :: as)) (hshort : ShortIntegers fs)
    (hw : Trivia w (a :: as)) (hfront : triviaLength false (a :: as) = 0)
    (hfault : (Lexeme.read a as).outcome = .error fault) :
    ∃ passed, text.toList = passed ++ a :: as ∧
      tokenize text = .error (fault.failureAt (lineAt passed)) := by
  obtain ⟨ts, hts⟩ := h.exists_tokens [] w
  obtain ⟨us, e, rfl⟩ := hts.concat
  exact (h.fails_behind hshort hw hfront hfault hts).2

/-- A text that becomes tokens falls into factors down to its end, and the tokens are theirs. -/
theorem factors_of_tokenize {text : String} {ts : List Token} (h : tokenize text = .ok ts) :
    ∃ fs last, Factors text.toList fs last ∧ ShortIntegers fs ∧ Trivia last [] ∧
      TokensOf [] fs last ts := by
  obtain ⟨fs, w, r, hfs, hshort, hw, hr⟩ := exists_factors text.toList
  cases hr with
  | stop =>
    rw [List.append_nil] at hfs
    obtain ⟨us, hus⟩ := hfs.exists_tokens [] w
    rw [hfs.tokenize_ok hw hshort hus] at h
    injection h with h
    exact ⟨fs, w, hfs, hshort, hw, h ▸ hus⟩
  | fault hfront hfault =>
    obtain ⟨passed, -, hfails⟩ := hfs.tokenize_fault hshort hw hfront hfault
    rw [hfails] at h
    cases h

end MflFrontend
