import MflFrontend.Proofs.Grammar.Alike

/-!
# Kinds decide

A parse looks at the kinds of its tokens and at nothing else. Two lists with the same kinds in the
same places therefore become trees of one shape, which hold the tokens of each list at the same
places, or are rejected at the same place for the same reason. Values and positions only pass
through, into leaves, lines and messages.
-/

namespace MflFrontend

/-- The two tokens stand at one place of the two lists. -/
def SamePlace (ts ts' : List Token) (t t' : Token) : Prop :=
  ∃ i : Nat, ts[i]? = some t ∧ ts'[i]? = some t'

/-- The parse of the tokens rests on the one at a place and comes to the failure. If that token can be
reported, the failure is a rejection of it in the words of the complaint, which takes the rest of the
message and the line from it; otherwise it is that an integer cannot be written. -/
structure RejectsAt (room : Nat) (ts : List Token) (complaint : Complaint) (i : Nat)
    (failure : Failure) : Prop where
  /-- The failure is what the parse comes to. -/
  outcome : (parseTokens room ts).outcome = .error failure
  /-- The parse rests on the place. -/
  rests : ∃ f s, Parse.wholeProgram (factorRoom room) (Parse.startOf ts) = .error f s ∧
    s.source.position (closeTokens ts).length = (i : Nat)
  /-- The failure is about the token at the place. -/
  found : ∃ t, (closeTokens ts)[i]? = some t ∧
    (t.IsReportable → ∃ e, failure = .rejected e ∧
      e.message = complaint.describe ++ ", found " ++ t.describeFound ∧ e.line = t.line ∧
      e.token? = some t) ∧
    (¬ t.IsReportable → failure = .integerUnwritable)

/-! ## Lists of the same kinds -/

/-- Closing adds a sentinel to both of two lists of the same kinds, or to neither. -/
theorem kinds_closeTokens {ts ts' : List Token} (h : ts.map Token.kind = ts'.map Token.kind) :
    (closeTokens ts).map Token.kind = (closeTokens ts').map Token.kind := by
  have hlast : ts.getLast?.map Token.kind = ts'.getLast?.map Token.kind := by
    rw [← List.getLast?_map, h, List.getLast?_map]
  unfold closeTokens
  cases hts : ts.getLast? with
  | none =>
    cases hts' : ts'.getLast? with
    | none => rfl
    | some last' =>
      rw [hts, hts'] at hlast
      cases hlast
  | some last =>
    cases hts' : ts'.getLast? with
    | none =>
      rw [hts, hts'] at hlast
      cases hlast
    | some last' =>
      rw [hts, hts'] at hlast
      injection hlast with hkind
      by_cases hend : last.kind = .endOfInput
      · have hend' : last'.kind = .endOfInput := hkind ▸ hend
        simp only [hend, hend', if_true, h]
      · have hend' : last'.kind ≠ .endOfInput := hkind ▸ hend
        simp only [hend, hend', if_false, List.map_append, h, List.map_cons, List.map_nil]

section SameKinds

variable {ts ts' : List Token} (h : ts.map Token.kind = ts'.map Token.kind)

include h

theorem SamePlace.kind_eq {t t' : Token} (hplace : SamePlace ts ts' t t') : t.kind = t'.kind := by
  obtain ⟨i, ht, ht'⟩ := hplace
  have hi := congrArg (·[i]?) h
  simpa [List.getElem?_map, ht, ht'] using hi

/-- Lists of the same kinds are related place by place. -/
theorem forall₂_samePlace : List.Forall₂ (SamePlace ts ts') ts ts' := by
  have hlength : ts.length = ts'.length := by simpa using congrArg List.length h
  refine List.forall₂_iff_get.mpr ⟨hlength, fun i hi hi' => ⟨i, ?_, ?_⟩⟩
  · rw [List.get_eq_getElem, List.getElem?_eq_getElem hi]
  · rw [List.get_eq_getElem, List.getElem?_eq_getElem hi']

theorem nesting_kinds : nesting ts = nesting ts' := by
  induction ts generalizing ts' with
  | nil => rw [List.map_eq_nil_iff.mp h.symm]
  | cons t ts ih =>
    obtain ⟨t', us', rfl, ht, hts⟩ := List.map_eq_cons_iff.mp h.symm
    rw [nesting, nesting, ht, ih hts.symm]

end SameKinds

/-! ## Parses of the same kinds -/

/-- A parse that complains of a token rests on one, with as much to come as stands behind it. -/
theorem Parse.rejectsAt {room : Nat} {ts : List Token} {complaint : Complaint} {t : Token}
    {s : ParseState}
    (hrun : wholeProgram (factorRoom room) (startOf ts) = .error (complaint.about t) s) :
    ∃ i failure, RejectsAt room ts complaint i failure ∧
      i + s.source.ahead.length + 1 = (closeTokens ts).length := by
  obtain ⟨last, hyields⟩ := wholeProgram_yields (factorRoom room) ts
  obtain ⟨u, t', rest, complaint', hclosed, -, -, hfailure, rfl⟩ := hyields.bad_of_error hrun
  have hreport : parseSource room (.ofTokens ts) = ⟨.error (complaint.about t), _⟩ :=
    parseSource_of_error hrun
  have hplace : (closeTokens ts)[u.length]? = some t' := by
    rw [hclosed, List.getElem?_append_right (Nat.le_refl _), Nat.sub_self]
    rfl
  have hlength : u.length + rest.length + 1 = (closeTokens ts).length := by
    rw [hclosed, List.length_append, List.length_cons]
    omega
  rw [Complaint.about_congr hfailure] at hreport
  obtain ⟨hreported, hunwritable⟩ := complaint.about_written t'
  refine ⟨u.length, (complaint.about t').written, ⟨?_, ⟨_, _, hrun, ?_⟩, t', hplace, fun h => ?_,
    hunwritable⟩, ?_⟩
  · rw [parseTokens, hreport]
    rfl
  · simp only [TokenSource.position, ParseState.before, List.tail_cons, List.length_map]
    omega
  · exact ⟨_, hreported h, rfl, rfl, rfl⟩
  · simpa [ParseState.before] using hlength

/-- Runs over lists of the same kinds come to trees of one shape, or to the same complaint of the
tokens in the same place, where as much is to come. -/
theorem Parse.wholeProgram_by_kinds (d : Nat) {ts ts' : List Token}
    (h : ts.map Token.kind = ts'.map Token.kind) :
    (∃ tree tree' s s', wholeProgram d (startOf ts) = .ok tree s ∧
      wholeProgram d (startOf ts') = .ok tree' s' ∧
      SyntaxTree.RelatedBy (SamePlace (closeTokens ts) (closeTokens ts')) tree tree') ∨
    ∃ complaint : Complaint, ∃ t t' s s',
      wholeProgram d (startOf ts) = .error (complaint.about t) s ∧
      wholeProgram d (startOf ts') = .error (complaint.about t') s' ∧
      SamePlace (closeTokens ts) (closeTokens ts') t t' ∧
      s.source.ahead.length = s'.source.ahead.length := by
  have hclosed := kinds_closeTokens h
  exact wholeProgram_listed (SamePlace.kind_eq hclosed) d (forall₂_samePlace hclosed)

/-- Lists of the same kinds both become trees, of one shape, with the tokens and lines of the same
places; or their parses both rest on the same place, with the same complaint of the token there. -/
theorem parseTokens_by_kinds (room : Nat) (ts ts' : List Token)
    (h : ts.map Token.kind = ts'.map Token.kind) :
    (∃ tree tree', (parseTokens room ts).outcome = .ok tree ∧
      (parseTokens room ts').outcome = .ok tree' ∧
      SyntaxTree.RelatedBy (SamePlace (closeTokens ts) (closeTokens ts')) tree tree') ∨
    ∃ complaint i failure failure', RejectsAt room ts complaint i failure ∧
      RejectsAt room ts' complaint i failure' := by
  rcases Parse.wholeProgram_by_kinds (factorRoom room) h with
    ⟨tree, tree', s, s', hrun, hrun', htree⟩ | ⟨complaint, t, t', s, s', hrun, hrun', -, hahead⟩
  · exact .inl ⟨tree, tree', parseTokens_of_ok hrun, parseTokens_of_ok hrun', htree⟩
  · obtain ⟨i, f, hrejects, hi⟩ := Parse.rejectsAt hrun
    obtain ⟨i', f', hrejects', hi'⟩ := Parse.rejectsAt hrun'
    -- as much is still to come on both sides, so both rest on the same place
    have hlength : (closeTokens ts).length = (closeTokens ts').length := by
      simpa using congrArg List.length (kinds_closeTokens h)
    obtain rfl : i = i' := by omega
    exact .inr ⟨complaint, i, f, f', hrejects, hrejects'⟩

/-- The token with another value, and moved to another place. -/
def Token.disguised (t : Token) : Token :=
  { t with value := .text "?", line := t.line + 7, column := 0 }

set_option maxRecDepth 100000 in
/-- Disguised tokens are parsed alike, where there is a tree and where there is none. -/
theorem disguised_parsed_alike :
    (sampleTokens.map Token.kind = (sampleTokens.map Token.disguised).map Token.kind ∧
      ∃ tree', (parseTokens 40 (sampleTokens.map Token.disguised)).outcome = .ok tree' ∧
        SyntaxTree.RelatedBy (SamePlace (closeTokens sampleTokens)
          (closeTokens (sampleTokens.map Token.disguised))) sampleTree tree') ∧
    sampleTokens.tail.map Token.kind = (sampleTokens.tail.map Token.disguised).map Token.kind ∧
      ∃ complaint failure failure', RejectsAt 40 sampleTokens.tail complaint 1 failure ∧
        RejectsAt 40 (sampleTokens.tail.map Token.disguised) complaint 1 failure' := by
  constructor
  · have hkinds : sampleTokens.map Token.kind =
        (sampleTokens.map Token.disguised).map Token.kind := by decide
    have hsample : (parseTokens 40 sampleTokens).outcome = .ok sampleTree := by cbv
    refine ⟨hkinds, ?_⟩
    rcases parseTokens_by_kinds 40 _ _ hkinds with
      ⟨tree, tree', htree, htree', hrelated⟩ | ⟨_, _, _, _, hrejects, -⟩
    · rw [hsample] at htree
      injection htree with htree
      exact ⟨tree', htree', htree ▸ hrelated⟩
    · have houtcome := hrejects.outcome
      rw [hsample] at houtcome
      cases houtcome
  · have hkinds : sampleTokens.tail.map Token.kind =
        (sampleTokens.tail.map Token.disguised).map Token.kind := by decide
    obtain ⟨f, s, hrun, hposition⟩ : ∃ f s,
        Parse.wholeProgram (factorRoom 40) (Parse.startOf sampleTokens.tail) = .error f s ∧
        s.source.position (closeTokens sampleTokens.tail).length = (1 : Nat) := ⟨_, _, rfl, rfl⟩
    refine ⟨hkinds, ?_⟩
    rcases parseTokens_by_kinds 40 _ _ hkinds with
      ⟨tree, _, htree, -, -⟩ | ⟨complaint, i, failure, failure', hrejects, hrejects'⟩
    · obtain ⟨s', hrun'⟩ := run_of_parseTokens htree
      rw [hrun] at hrun'
      cases hrun'
    · obtain ⟨f', s', hrun', hposition'⟩ := hrejects.rests
      rw [hrun] at hrun'
      injection hrun' with _ hs
      rw [← hs, hposition] at hposition'
      obtain rfl : 1 = i := by omega
      exact ⟨complaint, failure, failure', hrejects, hrejects'⟩

/-- A name, and an integer behind it, where only a semicolon or an operator can stand. -/
def numberedTokens (n : Int) : List Token := [{ kind := .ident }, { kind := .intLit, value := .int n }]

theorem numberedTokens_kinds (n m : Int) :
    (numberedTokens n).map Token.kind = (numberedTokens m).map Token.kind := rfl

/-- A parse of a name and an integer rests on the integer. -/
theorem numberedTokens_rejected (n : Int) :
    ∃ complaint failure, RejectsAt guaranteedRoom (numberedTokens n) complaint 1 failure := by
  obtain ⟨f, s, hrun, hahead⟩ : ∃ f s,
      Parse.wholeProgram (factorRoom guaranteedRoom) (Parse.startOf (numberedTokens 1)) = .error f s ∧
      s.source.ahead.length = 1 := ⟨_, _, rfl, rfl⟩
  rcases Parse.wholeProgram_by_kinds (factorRoom guaranteedRoom) (numberedTokens_kinds 1 n) with
    ⟨_, _, _, _, hrun', -⟩ | ⟨complaint, _, _, s', s'', hrun', hrun'', -, hlength⟩
  · rw [hrun] at hrun'
    cases hrun'
  · rw [hrun] at hrun'
    injection hrun' with _ hs
    obtain ⟨i, failure, hrejects, hi⟩ := Parse.rejectsAt hrun''
    have hclosed : (closeTokens (numberedTokens n)).length = 3 := rfl
    rw [← hs] at hlength
    obtain rfl : i = 1 := by omega
    exact ⟨complaint, failure, hrejects⟩

/-- An integer of one digit more than can be written. -/
def hugeInteger : Int := pow10 maxIntegerDigits

theorem hugeInteger_not_writable : ¬ IsWritableInteger hugeInteger := by
  rw [isWritableInteger_iff, hugeInteger, Int.natAbs_natCast]
  exact Nat.lt_irrefl _

/-- Of an integer that cannot be written there is no error, as none could name it. -/
theorem numberedTokens_unreported {n : Int} (hn : ¬ IsWritableInteger n) :
    (parseTokens guaranteedRoom (numberedTokens n)).outcome = .error .integerUnwritable := by
  obtain ⟨complaint, failure, hrejects⟩ := numberedTokens_rejected n
  obtain ⟨t, ht, -, hunwritable⟩ := hrejects.found
  have hreportable : ¬ t.IsReportable := by
    injection ht with ht
    rw [← ht]
    rintro ⟨hkind | hvalue, -⟩
    · cases hkind
    · exact hn hvalue
  rw [hrejects.outcome, hunwritable hreportable]

/-- Two lists of the same kinds need not both be rejected: the value of a token may be an integer
that cannot be written. -/
theorem hugeInteger_unreported :
    ¬ ∀ (ts ts' : List Token), ts.map Token.kind = ts'.map Token.kind →
      (∃ tree tree', (parseTokens guaranteedRoom ts).outcome = .ok tree ∧
        (parseTokens guaranteedRoom ts').outcome = .ok tree') ∨
      ∃ e e', (parseTokens guaranteedRoom ts).outcome = .error (.rejected e) ∧
        (parseTokens guaranteedRoom ts').outcome = .error (.rejected e') := by
  intro hall
  have hunreported := numberedTokens_unreported hugeInteger_not_writable
  rcases hall (numberedTokens 1) (numberedTokens hugeInteger) (numberedTokens_kinds ..) with
    ⟨_, _, -, htree⟩ | ⟨_, _, -, herror⟩
  · rw [hunreported] at htree
    cases htree
  · rw [hunreported] at herror
    cases herror

end MflFrontend
