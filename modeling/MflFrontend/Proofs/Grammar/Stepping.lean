import MflFrontend.Proofs.Grammar.Derivation

/-!
# Steps of a parse over tokens

`ParseState.before final log ts` is the state of a parse that stands before the tokens `ts`. Each
primitive step is described once on such states; what larger steps do follows from these equations
and from `Parse.Yields.bind`.

A parse that moves past a token must have one behind it. That is so before every token but the
sentinel, as long as a sentinel is to come (`EndsInput`).
-/

namespace MflFrontend

/-- What a complaint about a token comes to. The complaint names the token, and if it cannot, there
is no complaint. -/
def Complaint.about (complaint : Complaint) (t : Token) : Failure :=
  if t.IsDescribable then .rejected (.unexpected complaint t t.line) else .integerUnwritable

theorem Complaint.about_of_describable {t : Token} (h : t.IsDescribable) (complaint : Complaint) :
    complaint.about t = .rejected (.unexpected complaint t t.line) := if_pos h

/-- Only a complaint that can be made is a rejection. -/
theorem Complaint.about_eq_rejected {complaint : Complaint} {t : Token} {e : ParseError}
    (h : complaint.about t = .rejected e) :
    t.IsDescribable ∧ e = .unexpected complaint t t.line := by
  unfold about at h
  split at h
  · next ht =>
    injection h with h
    exact ⟨ht, h.symm⟩
  · cases h

/-- The token can be named in a complaint, and its line can be named in an error. -/
def Token.IsReportable (t : Token) : Prop := t.IsDescribable ∧ IsWritableInteger t.line

/-- Complaints that come to the same may be made of the same token. -/
theorem Complaint.about_congr {complaint complaint' : Complaint} {t t' : Token}
    (h : complaint.about t = complaint'.about t') : complaint.about t = complaint.about t' := by
  by_cases ht : t.IsDescribable
  · rw [about_of_describable ht] at h
    obtain ⟨-, he⟩ := about_eq_rejected h.symm
    injection he with _ ht'
    rw [ht']
  · have hnone : complaint.about t = .integerUnwritable := if_neg ht
    have ht' : ¬ t'.IsDescribable := by
      intro ht'
      rw [hnone, about_of_describable ht'] at h
      cases h
    rw [hnone]
    exact (if_neg ht').symm

/-- What a complaint comes to once its error is written. -/
theorem Complaint.about_written (complaint : Complaint) (t : Token) :
    (t.IsReportable → (complaint.about t).written = .rejected (.unexpected complaint t t.line)) ∧
      (¬ t.IsReportable → (complaint.about t).written = .integerUnwritable) := by
  by_cases ht : t.IsDescribable
  · rw [about_of_describable ht]
    refine ⟨fun h => if_pos h.2, fun h => if_neg fun hline => h ⟨ht, hline⟩⟩
  · have hnone : complaint.about t = .integerUnwritable := if_neg ht
    rw [hnone]
    exact ⟨fun h => absurd h.1 ht, fun _ => rfl⟩

/-- The state before the tokens `ts`, with the pull that comes again and again behind them and the
records left so far. -/
def ParseState.before (final : Pull) (log : List LogRecord) (ts : List Token) : ParseState where
  source :=
    { ahead := ts.tail.map .ofToken
      final
      current? := ts.head?
      idleLine := (ts.head?.map Token.line).getD 1 }
  log

/-- A sentinel is among the tokens. -/
def EndsInput (ts : List Token) : Prop := ∃ t ∈ ts, t.kind = .endOfInput

theorem EndsInput.tail {t : Token} {ts : List Token} (h : EndsInput (t :: ts))
    (ht : t.kind ≠ .endOfInput) : EndsInput ts := by
  obtain ⟨e, he, hk⟩ := h
  rcases List.mem_cons.mp he with rfl | he
  · exact absurd hk ht
  · exact ⟨e, he, hk⟩

theorem EndsInput.drop {w ts : List Token} (h : EndsInput (w ++ ts))
    (hw : ∀ t ∈ w, t.kind ≠ .endOfInput) : EndsInput ts := by
  obtain ⟨e, he, hk⟩ := h
  rcases List.mem_append.mp he with he | he
  · exact absurd hk (hw e he)
  · exact ⟨e, he, hk⟩

/-- Where the sentinel is to come there is a next token. -/
theorem EndsInput.exists_cons {ts : List Token} (h : EndsInput ts) : ∃ t us, ts = t :: us := by
  obtain ⟨e, he, -⟩ := h
  exact List.exists_cons_of_ne_nil (List.ne_nil_of_mem he)

namespace Parse

variable {α β : Type}

theorem bind_of_ok {m : Parse α} {k : α → Parse β} {s s' : ParseState} {a : α}
    (h : m s = .ok a s') : (m >>= k) s = k a s' := by
  show EStateM.bind m k s = k a s'
  simp only [EStateM.bind, h]

theorem bind_of_error {m : Parse α} {k : α → Parse β} {s s' : ParseState} {failure : Failure}
    (h : m s = .error failure s') : (m >>= k) s = .error failure s' := by
  show EStateM.bind m k s = .error failure s'
  simp only [EStateM.bind, h]

/-- What succeeds, does so step by step. -/
theorem ok_of_bind {m : Parse α} {k : α → Parse β} {s s₂ : ParseState} {b : β}
    (h : (m >>= k) s = .ok b s₂) : ∃ a s₁, m s = .ok a s₁ ∧ k a s₁ = .ok b s₂ := by
  cases hm : m s with
  | ok a s₁ => exact ⟨a, s₁, rfl, bind_of_ok (k := k) hm ▸ h⟩
  | error failure s₁ =>
    rw [bind_of_error hm] at h
    cases h

/-- What follows a step only sees what the step comes to. -/
theorem bind_congr {m m' : Parse α} {s s' : ParseState} (h : m s = m' s') (k : α → Parse β) :
    (m >>= k) s = (m' >>= k) s' := by
  show EStateM.bind m k s = EStateM.bind m' k s'
  simp only [EStateM.bind, h]

/-- A step comes to a good value and state, or to a bad failure and state. -/
def Yields (m : Parse α) (s : ParseState) (good : α → ParseState → Prop)
    (bad : Failure → ParseState → Prop) : Prop :=
  match m s with
  | .ok a s' => good a s'
  | .error failure s' => bad failure s'

namespace Yields

variable {m : Parse α} {s : ParseState} {good : α → ParseState → Prop}
  {bad : Failure → ParseState → Prop}

theorem of_ok {a : α} {u : ParseState} (h : m s = .ok a u) (hg : good a u) :
    m.Yields s good bad := by
  simp only [Yields, h]
  exact hg

theorem of_error {f : Failure} {u : ParseState} (h : m s = .error f u) (hb : bad f u) :
    m.Yields s good bad := by
  simp only [Yields, h]
  exact hb

theorem good_of_ok (h : m.Yields s good bad) {a : α} {s' : ParseState} (hm : m s = .ok a s') :
    good a s' := by
  simpa only [Yields, hm] using h

theorem bad_of_error (h : m.Yields s good bad) {failure : Failure} {s' : ParseState}
    (hm : m s = .error failure s') : bad failure s' := by
  simpa only [Yields, hm] using h

/-- What a step comes to may be said more weakly. -/
theorem mono {good' : α → ParseState → Prop} {bad' : Failure → ParseState → Prop}
    (h : m.Yields s good bad) (hg : ∀ a s', good a s' → good' a s')
    (hb : ∀ failure s', bad failure s' → bad' failure s') : m.Yields s good' bad' := by
  cases hm : m s with
  | ok a s' => exact of_ok hm (hg _ _ (h.good_of_ok hm))
  | error failure s' => exact of_error hm (hb _ _ (h.bad_of_error hm))

/-- A step that is known to succeed may be taken off the front. -/
theorem step {k : α → Parse β} {a : α} {s' : ParseState} {good : β → ParseState → Prop}
    (hm : m s = .ok a s') (h : (k a).Yields s' good bad) : (m >>= k).Yields s good bad := by
  simpa only [Yields, bind_of_ok hm] using h

theorem bind {k : α → Parse β} {good' : β → ParseState → Prop}
    {bad' : Failure → ParseState → Prop} (h : m.Yields s good bad)
    (hb : ∀ failure s', bad failure s' → bad' failure s')
    (hg : ∀ a s', good a s' → (k a).Yields s' good' bad') : (m >>= k).Yields s good' bad' := by
  cases hm : m s with
  | ok a s' => exact step hm (hg a s' (h.good_of_ok hm))
  | error failure s' => exact of_error (bind_of_error hm) (hb _ _ (h.bad_of_error hm))

end Yields

/-! ## Primitive steps -/

theorem current_of_current? {s : ParseState} {t : Token} (h : s.source.current? = some t) :
    current s = .ok t s := by
  simp [current, TokenSource.current, h]

theorem currentIs_of_current? {s : ParseState} {t : Token} (h : s.source.current? = some t)
    (kinds : List TokenKind) : currentIs kinds s = .ok (kinds.contains t.kind) s := by
  rw [currentIs, bind_of_ok (current_of_current? h)]
  rfl

theorem currentLine_of_current? {s : ParseState} {t : Token} (h : s.source.current? = some t) :
    currentLine s = .ok t.line s := by
  show EStateM.Result.ok s.source.currentLine s = .ok t.line s
  rw [TokenSource.currentLine, h]

theorem current_of_none {s : ParseState} (h : s.source.current? = none) :
    current s = .error .noTokenRead s := by
  simp [current, TokenSource.current, h]

/-- Moving on to a token. -/
theorem skip_of_ok {s : ParseState} {t : Token} (h : s.source.pull.outcome = .ok t) :
    skip s = .ok () { s with source := s.source.next.2 } := by
  simp only [skip, bind, EStateM.bind, advance, TokenSource.next, h]
  rfl

/-- Moving on to a failure, which leaves its records. -/
theorem skip_of_error {s : ParseState} {failure : Failure}
    (h : s.source.pull.outcome = .error failure) :
    skip s = .error failure { source := s.source.next.2, log := s.log ++ failure.records } := by
  simp only [skip, bind, EStateM.bind, advance, TokenSource.next, h]

theorem complain_of_current? {s : ParseState} {t : Token} (h : s.source.current? = some t)
    (complaint : Complaint) : complain complaint s =
      if t.IsDescribable then
        .ok (.unexpected complaint t t.line)
          { s with log := s.log ++ [(ParseError.unexpected complaint t t.line).record] }
      else .error .integerUnwritable s := by
  rw [complain, bind_of_ok (current_of_current? h), bind_of_ok (currentLine_of_current? h)]
  unfold found
  by_cases ht : t.IsDescribable
  · rw [if_pos ht, if_pos ht]
    rfl
  · rw [if_neg ht, if_neg ht]
    rfl

/-- A complaint is logged and thrown. -/
theorem reject_of_current? {s : ParseState} {t : Token} (h : s.source.current? = some t)
    (complaint : Complaint) : (reject complaint : Parse α) s =
      .error (complaint.about t) { s with log := s.log ++ (complaint.about t).records } := by
  have hcomplain := complain_of_current? h complaint
  unfold Complaint.about
  by_cases ht : t.IsDescribable
  · rw [if_pos ht] at hcomplain ⊢
    rw [reject, bind_of_ok hcomplain]
    rfl
  · rw [if_neg ht] at hcomplain ⊢
    rw [reject, bind_of_error hcomplain, Failure.records, List.append_nil]

theorem reject_of_none {s : ParseState} (h : s.source.current? = none) (complaint : Complaint) :
    (reject complaint : Parse α) s = .error .noTokenRead s :=
  bind_of_error (bind_of_error (current_of_none h))

/-- Rejecting does not succeed. -/
theorem reject_fails (complaint : Complaint) (s : ParseState) :
    (reject complaint : Parse α).Yields s (fun _ _ => False) fun _ _ => True := by
  have hcomplain : (complain complaint).Yields s (fun _ _ => True) fun _ _ => True := by
    unfold Yields
    split <;> trivial
  exact hcomplain.bind (fun _ _ _ => trivial) fun e s₁ _ =>
    Yields.of_error (f := .rejected e) (u := s₁) rfl trivial

/-- Where there is room, a token is taken as it is without asking. -/
theorem skipWithin_of_le {s : ParseState} {room : Nat} (h : s.source.pull.frames ≤ room) :
    skipWithin room s = skip s := by
  have hroom : skipWithin room s =
      (if s.source.pull.frames ≤ room then skip else reject .nestedTooDeeply) s := rfl
  rw [hroom, if_pos h]

theorem skipWithin_of_lt {s : ParseState} {room : Nat} (h : room < s.source.pull.frames) :
    skipWithin room s = reject .nestedTooDeeply s := by
  have hroom : skipWithin room s =
      (if s.source.pull.frames ≤ room then skip else reject .nestedTooDeeply) s := rfl
  rw [hroom, if_neg (Nat.not_le.mpr h)]

section Primitive

variable (final : Pull) (log : List LogRecord) (t : Token) (ts : List Token)

theorem current_before :
    current (.before final log (t :: ts)) = .ok t (.before final log (t :: ts)) := rfl

theorem currentLine_before :
    currentLine (.before final log (t :: ts)) = .ok t.line (.before final log (t :: ts)) := rfl

theorem currentIs_before (kinds : List TokenKind) :
    currentIs kinds (.before final log (t :: ts)) =
      .ok (kinds.contains t.kind) (.before final log (t :: ts)) := rfl

theorem currentIs_of_mem {t : Token} {kinds : List TokenKind} (h : t.kind ∈ kinds) :
    currentIs kinds (.before final log (t :: ts)) = .ok true (.before final log (t :: ts)) := by
  rw [currentIs_before, List.contains_iff_mem.mpr h]

theorem currentIs_of_not_mem {t : Token} {kinds : List TokenKind} (h : t.kind ∉ kinds) :
    currentIs kinds (.before final log (t :: ts)) = .ok false (.before final log (t :: ts)) := by
  rw [currentIs_before, Bool.eq_false_iff.mpr (mt List.contains_iff_mem.mp h)]

theorem ahead_before :
    ahead (.before final log ts) = .ok (ts.tail.map .ofToken) (.before final log ts) := rfl

theorem reject_before (complaint : Complaint) :
    (reject complaint : Parse α) (.before final log (t :: ts)) =
      .error (complaint.about t)
        (.before final (log ++ (complaint.about t).records) (t :: ts)) :=
  reject_of_current? rfl complaint

/-- Before any token but the sentinel, moving on leads before the tokens behind it. -/
theorem skip_before {t : Token} {ts : List Token} (h : EndsInput (t :: ts))
    (ht : t.kind ≠ .endOfInput) :
    skip (.before final log (t :: ts)) = .ok () (.before final log ts) := by
  obtain ⟨u, us, rfl⟩ := (h.tail ht).exists_cons
  rfl

/-- Taking a listed token takes three frames. -/
theorem skipWithin_before {t : Token} {ts : List Token} (h : EndsInput (t :: ts))
    (ht : t.kind ≠ .endOfInput) {room : Nat} (hroom : 3 ≤ room) :
    skipWithin room (.before final log (t :: ts)) = .ok () (.before final log ts) := by
  rw [skipWithin_of_le, skip_before final log h ht]
  obtain ⟨u, us, rfl⟩ := (h.tail ht).exists_cons
  exact hroom

theorem skipWithin_before_of_lt {t : Token} {ts : List Token} (h : EndsInput (t :: ts))
    (ht : t.kind ≠ .endOfInput) {room : Nat} (hroom : room < 3) :
    skipWithin room (.before final log (t :: ts)) =
      .error (Complaint.nestedTooDeeply.about t)
        (.before final (log ++ (Complaint.nestedTooDeeply.about t).records) (t :: ts)) := by
  rw [skipWithin_of_lt, reject_before]
  obtain ⟨u, us, rfl⟩ := (h.tail ht).exists_cons
  exact hroom

theorem expect_before {t : Token} {ts : List Token} {kind : TokenKind} (what : Expectation)
    (h : EndsInput (t :: ts)) (ht : t.kind = kind) (hk : kind ≠ .endOfInput) :
    expect kind what (.before final log (t :: ts)) = .ok t (.before final log ts) := by
  have hskip := skip_before final log h (ht ▸ hk)
  simp only [expect, bind_of_ok (current_before final log t ts), ht, if_true, bind_of_ok hskip]
  rfl

theorem expect_before_of_ne {t : Token} {kind : TokenKind} (what : Expectation)
    (ht : t.kind ≠ kind) :
    expect kind what (.before final log (t :: ts)) =
      .error ((Complaint.expected what).about t)
        (.before final (log ++ ((Complaint.expected what).about t).records) (t :: ts)) := by
  simp only [expect, bind_of_ok (current_before final log t ts), ht, if_false]
  exact reject_before ..

end Primitive

/-! ## Loops that are over -/

/-- The loop of a tier ends before a token that is no operator of it. -/
theorem operands_of_current? {ops : List TokenKind} {operand : Parse Node} {s : ParseState}
    {t : Token} (h : s.source.current? = some t) (ht : t.kind ∉ ops) (rounds : List Pull)
    (n : Node) : operands ops operand rounds n s = .ok n s := by
  cases rounds with
  | nil => rfl
  | cons round rounds =>
    rw [operands, bind_of_ok (currentIs_of_current? h ops),
      if_neg (mt List.contains_iff_mem.mp ht)]
    rfl

/-- The loop over statements ends before the sentinel. -/
theorem statements_of_current? {s : ParseState} {t : Token} (h : s.source.current? = some t)
    (ht : t.kind = .endOfInput) (d : Nat) (rounds : List Pull) :
    statements d rounds s = .ok [] s := by
  cases rounds with
  | nil => rfl
  | cons round rounds =>
    have hmem : [TokenKind.endOfInput].contains t.kind = true := by rw [ht]; decide
    rw [statements, bind_of_ok (currentIs_of_current? h _), if_pos hmem]
    rfl

end Parse

/-! ## Outcomes -/

section

variable {room : Nat} {source : TokenSource} {s : ParseState}

/-- What a parse comes to is what its run comes to. -/
theorem parseSource_of_ok {tree : SyntaxTree}
    (h : Parse.wholeProgram (factorRoom room) { source } = .ok tree s) :
    parseSource room source = ⟨.ok tree, s.log⟩ := by
  have hrun : (Parse.wholeProgram (factorRoom room)).run { source } = .ok tree s := h
  simp only [parseSource, hrun]

theorem parseSource_of_error {failure : Failure}
    (h : Parse.wholeProgram (factorRoom room) { source } = .error failure s) :
    parseSource room source = ⟨.error failure, s.log⟩ := by
  have hrun : (Parse.wholeProgram (factorRoom room)).run { source } = .error failure s := h
  simp only [parseSource, hrun]

/-- A tree comes of a run that gives it. -/
theorem run_of_parseSource {tree : SyntaxTree} (h : (parseSource room source).outcome = .ok tree) :
    ∃ s, Parse.wholeProgram (factorRoom room) { source } = .ok tree s := by
  cases hrun : Parse.wholeProgram (factorRoom room) { source } with
  | ok tree' s =>
    rw [parseSource_of_ok hrun] at h
    injection h with h
    exact ⟨s, h ▸ rfl⟩
  | error failure s =>
    rw [parseSource_of_error hrun] at h
    cases h

theorem run_of_parseSource_error {failure : Failure}
    (h : (parseSource room source).outcome = .error failure) :
    ∃ s, Parse.wholeProgram (factorRoom room) { source } = .error failure s := by
  cases hrun : Parse.wholeProgram (factorRoom room) { source } with
  | ok tree s =>
    rw [parseSource_of_ok hrun] at h
    cases h
  | error failure' s =>
    rw [parseSource_of_error hrun] at h
    injection h with h
    exact ⟨s, h ▸ rfl⟩

end

/-- The outcome of a parse that is written is a tree exactly if it was one before. -/
theorem ParseReport.written_ok_iff {r : ParseReport} {tree : SyntaxTree} :
    r.written.outcome = .ok tree ↔ r.outcome = .ok tree := by
  unfold written
  cases r.outcome <;> simp [Except.mapError]

end MflFrontend
