import MflFrontend.Proofs.Grammar.Alike

/-!
# Reading a text while it is parsed

A parse of a text asks for one token after the other, and never sees the rest of the text. A tree
comes only of a text that becomes tokens, and is what their parse gives. If the text does not become
tokens, the first of two errors wins. Either the parse complains of one of the tokens before the
failing reading, or it comes to that reading and fails with it; it cannot end before, as only the end
of a text ends a program.

Reading a token of a text takes more frames than taking one of a list. Where there is room for all
parentheses that makes no difference, and the complaints are those of a parse of the tokens.
-/

namespace MflFrontend

/-- The parse of the tokens rejects one of them, on which it rests, and not the sentinel that closes
them. -/
def RejectsOneOf (room : Nat) (ts : List Token) (failure : Failure) : Prop :=
  ∃ u t rest complaint s, ts = u ++ t :: rest ∧
    failure = .rejected (.unexpected complaint t t.line) ∧
    Parse.wholeProgram (factorRoom room) (Parse.startOf ts) = .error failure s ∧
    s.source.position (closeTokens ts).length = (u.length : Nat)

/-- The tokens of a text that are read before the first failure. -/
def goodTokens (text : String) : List Token := Pull.goodTokens (Cursor.start text).pulls

/-- The pull with a token for its outcome, which takes as much. -/
def Pull.mend (e : Token) (p : Pull) : Pull := { p with outcome := .ok e }

/-- Parses of the same describable tokens with the same room, from pulls that take as much. -/
def describedParse : Pairing where
  token t t' := t = t' ∧ t.IsDescribable
  kind_eq h := congrArg Token.kind h.1
  failure _ _ := False
  slack := 0
  roomier := False

theorem describedParse_rooms (d : Nat) : describedParse.Rooms d d := ⟨Nat.le_refl d, .inr rfl⟩

/-- Pulls of describable tokens correspond to themselves. -/
theorem Brings.paired_described {ps : List Pull} {ts : List Token} (h : Brings ps ts)
    (hts : ∀ t ∈ ts, t.IsDescribable) (hframes : ∀ p ∈ ps, 3 ≤ p.frames) :
    List.Forall₂ (Pull.Paired describedParse) ps ps :=
  h.paired_self (fun t ht => ⟨rfl, hts t ht⟩) fun p hp =>
    Nat.lt_of_lt_of_le (by decide) (hframes p hp)

namespace Parse

/-! ## Where a parse of tokens fails -/

/-- A parse of describable tokens that fails rejects one of them exactly if something is still to
come. -/
theorem rejectsOneOf_iff {room : Nat} {ts : List Token} (hts : ∀ t ∈ ts, t.kind ≠ .endOfInput)
    (hdescribable : ∀ t ∈ ts, t.IsDescribable) {failure : Failure} {s : ParseState}
    (hrun : wholeProgram (factorRoom room) (startOf ts) = .error failure s) :
    RejectsOneOf room ts failure ↔ s.source.ahead ≠ [] := by
  obtain ⟨line, hclosed⟩ := closeTokens_concat hts
  constructor
  · rintro ⟨u, t, rest, complaint, s', hsplit, -, hrun', hposition⟩ hnil
    rw [hrun] at hrun'
    injection hrun' with _ hs
    rw [← hs, TokenSource.position, hnil, hclosed, hsplit] at hposition
    simp at hposition
    omega
  · intro hahead
    obtain ⟨last, hyields⟩ := wholeProgram_yields (factorRoom room) ts
    obtain ⟨u, t, rest, complaint, hsplit, -, -, rfl, rfl⟩ := hyields.bad_of_error hrun
    have hrest : rest ≠ [] := by
      rintro rfl
      exact hahead rfl
    obtain ⟨rest, a, rfl⟩ := (List.eq_nil_or_concat rest).resolve_left hrest
    rw [List.concat_eq_append] at hsplit hrun
    -- something stands behind the token, so it is not the sentinel that closes the list
    have hts_split : ts = u ++ t :: rest := by
      rw [hclosed, ← List.cons_append, ← List.append_assoc] at hsplit
      exact (List.append_inj' hsplit rfl).1
    have ht : t.IsDescribable := hdescribable t (by simp [hts_split])
    refine ⟨u, t, rest, complaint, _, hts_split, complaint.about_of_describable ht, hrun, ?_⟩
    rw [TokenSource.position, hclosed, hts_split]
    simp [ParseState.before]
    omega

/-- A parse that gives a tree has asked for everything. -/
theorem wholeProgram_takes_all {d : Nat} {ts : List Token} (hts : ∀ t ∈ ts, t.kind ≠ .endOfInput)
    {tree : SyntaxTree} {s : ParseState} (hrun : wholeProgram d (startOf ts) = .ok tree s) :
    s.source.ahead = [] := by
  obtain ⟨line, hclosed⟩ := closeTokens_concat hts
  obtain ⟨last, hskip⟩ := skip_startOf ts
  have hend := closeTokens_endsInput ts
  rw [hclosed] at hskip hend
  generalize ({ kind := .endOfInput, line } : Token) = e at hskip hend hclosed
  obtain ⟨first, us, hus⟩ := hend.exists_cons
  have htakes : (programBody d).Yields (.before (.ofToken last) [] (ts ++ [e]))
      (fun _ s => s.source.ahead = []) fun _ _ => True := by
    have he : e.kind = .endOfInput := by
      obtain ⟨a, ha, hk⟩ := hend
      rcases List.mem_append.mp ha with ha | ha
      · exact absurd hk (hts a ha)
      · exact List.mem_singleton.mp ha ▸ hk
    have hline : currentLine (.before (.ofToken last) [] (ts ++ [e])) =
        .ok first.line (.before (.ofToken last) [] (ts ++ [e])) := by
      rw [hus]
      rfl
    refine Yields.step hline ?_
    refine Yields.bind (programStatements_yields d hend) (fun _ _ _ => trivial) ?_
    rintro ns _ ⟨v, e', rest, hsplit, -, hv, he', rfl⟩
    have hrest : rest = [] := by
      have hbefore := congrArg beforeEnd hsplit
      rw [beforeEnd_append hts he, beforeEnd_append hv.kind_ne_end he'] at hbefore
      rw [hbefore] at hsplit
      have htail := List.append_cancel_left hsplit
      injection htail with _ hnil
      exact hnil.symm
    have hshrinks : Shrinks (do
        let _ ← expect .endOfInput .endOfInput
        record (.parsed ns.length)
        return (⟨.program first.line ns⟩ : SyntaxTree)) := inferInstance
    refine (hshrinks.yields _).mono (fun _ s hlen => ?_) fun _ _ _ => trivial
    rw [hrest] at hlen
    exact List.eq_nil_of_length_eq_zero (Nat.le_zero.mp hlen)
  rw [wholeProgram_eq, bind_of_ok hskip] at hrun
  exact htakes.good_of_ok hrun

/-! ## Texts that do not become tokens -/

/-- Parses of pulls that begin alike go in lockstep as far as they do, if those behind take as
much. -/
theorem wholeProgram_tracks_front {d : Nat} {front v v' : List Pull} {p p' : Pull}
    (hfront : List.Forall₂ (Pull.Paired describedParse) front front) (hne : front ≠ [])
    (hframes : p.frames = p'.frames) (idle idle' : Int) :
    TracksFrom describedParse (p :: v) (p' :: v') (startOfPulls (front ++ p :: v) idle)
      (startOfPulls (front ++ p' :: v') idle') (SyntaxTree.RelatedBy describedParse.token)
      (wholeProgram d) (wholeProgram d) := by
  cases hfront with
  | nil => exact absurd rfl hne
  | cons hq hqs =>
    refine wholeProgram_tracks (describedParse_rooms d) rfl rfl hq hqs fun t _ => ?_
    exact .inl ⟨List.cons_ne_nil p v, .inl (List.cons_ne_nil p' v'), .inr hframes⟩

/-- Parses of described tokens that fail alike come to the same complaint. -/
theorem FailsAlike.described {α : Type} {v v' : List Pull} {f : Failure} {s : ParseState}
    {r' : EStateM.Result Failure ParseState α} (h : FailsAlike describedParse v v' f s r') :
    ∃ complaint : Complaint, ∃ t s', t.IsDescribable ∧ f = complaint.about t ∧ r' = .error f s' ∧
      Abreast describedParse v v' s s' := by
  cases h with
  | reading _ hfailure => exact hfailure.elim
  | depth hroomier => exact hroomier.elim
  | @complaint complaint t t' s' hf hrun' htt habreast =>
    obtain ⟨rfl, ht⟩ := htt
    exact ⟨complaint, t, s', ht, hf, by rw [hrun', hf], habreast⟩

section Failing

variable {d : Nat} {front : List Pull} {p : Pull} {failure : Failure} {ts : List Token}
  {e : Token} (more : List Pull) (idle idle' : Int) (hfront : Brings front ts) (hp : p.outcome = .error failure)
  (hdescribable : ∀ t ∈ ts, t.IsDescribable) (hframes : ∀ q ∈ front, 3 ≤ q.frames)

include hfront hframes

omit failure in
/-- With a sentinel in the place of the failing pull, a parse that gives a tree has asked for
everything. -/
theorem mended_takes_all (hts : ∀ t ∈ ts, t.kind ≠ .endOfInput)
    (hclosed : closeTokens ts = ts ++ [e]) (hthree : 3 ≤ p.frames) {tree : SyntaxTree}
    {s : ParseState}
    (hrun : wholeProgram d (startOfPulls (front ++ [p.mend e]) idle') = .ok tree s) :
    s.source.ahead = [] := by
  have hmended : Brings (front ++ [p.mend e]) (closeTokens ts) := by
    rw [hclosed]
    exact hfront.append (.cons rfl .nil)
  have hmended_frames : ∀ q ∈ front ++ [p.mend e], 3 ≤ q.frames :=
    List.forall_mem_append.mpr ⟨hframes, List.forall_mem_singleton.mpr hthree⟩
  obtain ⟨s', hrun', hlength⟩ := wholeProgram_of_pulls hmended hmended_frames hrun
  rw [wholeProgram_takes_all hts hrun'] at hlength
  exact List.eq_nil_of_length_eq_zero hlength

include hp hdescribable

/-- A parse comes to the failing pull, or complains of a token before it as if a sentinel stood in the
place of that pull. -/
theorem failing_cases (hts : ∀ t ∈ ts, t.kind ≠ .endOfInput)
    (hclosed : closeTokens ts = ts ++ [e]) (hthree : 3 ≤ p.frames) :
    (∃ s, wholeProgram d (startOfPulls (front ++ p :: more) idle) = .error failure s) ∨
    ∃ complaint : Complaint, ∃ t s s', t.IsDescribable ∧
      wholeProgram d (startOfPulls (front ++ p :: more) idle) = .error (complaint.about t) s ∧
      wholeProgram d (startOfPulls (front ++ [p.mend e]) idle') = .error (complaint.about t) s' ∧
      s'.source.ahead ≠ [] := by
  by_cases hne : front = []
  · obtain ⟨s, hskip⟩ := skip_failure (s := startOfPulls (p :: more) idle) hp
    exact .inl ⟨s, by rw [hne, wholeProgram_eq, List.nil_append, bind_of_error hskip]⟩
  have hmended : p.frames = (p.mend e).frames := rfl
  have htracks : TracksFrom describedParse (p :: more) [p.mend e] _ _ _ (wholeProgram d) _ :=
    wholeProgram_tracks_front (hfront.paired_described hdescribable hframes) hne hmended idle idle'
  have hnot_beyond : ∀ u, ¬ Beyond (p :: more) u := by
    rintro u ⟨-, q, t, hq, hok⟩
    cases hq
    rw [hp] at hok
    cases hok
  -- where the two are still abreast, the sentinel is to come
  have hleft : ∀ u u', Abreast describedParse (p :: more) [p.mend e] u u' → u'.source.ahead ≠ [] := by
    intro u u' hu hnil
    have hlen := hu.length
    rw [hnil, List.length_nil, List.length_singleton, List.length_cons] at hlen
    omega
  cases hrun : wholeProgram d (startOfPulls (front ++ p :: more) idle) with
  | ok tree u =>
    rcases htracks.good_of_ok hrun with hbeyond | ⟨tree', u', hrun', -, hu⟩
    · exact absurd hbeyond (hnot_beyond u)
    · have hall := mended_takes_all idle' hfront hframes hts hclosed hthree hrun'
      exact absurd hall (hleft u u' hu)
  | error f u =>
    cases htracks.bad_of_error hrun with
    | beyond hbeyond => exact absurd hbeyond (hnot_beyond u)
    | next hnext =>
      obtain ⟨q, hq, hfails⟩ := hnext
      cases hq
      rw [hp] at hfails
      injection hfails with hfails
      exact .inl ⟨u, by rw [hfails]⟩
    | alike halike =>
      obtain ⟨complaint, t, u', ht, hf, hrun', hu⟩ := halike.described
      rw [hf] at hrun'
      exact .inr ⟨complaint, t, u, u', ht, by rw [hf], hrun', hleft u u' hu⟩

omit failure hp in
/-- What a parse complains of with a sentinel in the place of the failing pull, it complains of
before that pull. -/
theorem failing_of_mended (hne : ts ≠ []) {f : Failure} {s : ParseState}
    (hrun : wholeProgram d (startOfPulls (front ++ [p.mend e]) idle') = .error f s)
    (hahead : s.source.ahead ≠ []) :
    ∃ s', wholeProgram d (startOfPulls (front ++ p :: more) idle) = .error f s' := by
  have hfront_ne : front ≠ [] := by
    rintro rfl
    cases hfront
    exact hne rfl
  have hmended : (p.mend e).frames = p.frames := rfl
  have htracks : TracksFrom describedParse [p.mend e] (p :: more) _ _ _ (wholeProgram d) _ :=
    wholeProgram_tracks_front (hfront.paired_described hdescribable hframes) hfront_ne hmended idle'
      idle
  cases htracks.bad_of_error hrun with
  | beyond hbeyond =>
    have hpos := List.length_pos_of_ne_nil hahead
    have hlen := hbeyond.1
    rw [List.length_singleton] at hlen
    omega
  | next hnext =>
    obtain ⟨q, hq, hfails⟩ := hnext
    cases hq
    cases hfails
  | alike halike =>
    obtain ⟨-, -, s', -, -, hrun', -⟩ := halike.described
    exact ⟨s', hrun'⟩

end Failing

end Parse

/-! ## All texts -/

/-- Whatever is read from a text can be described. -/
theorem isDescribable_of_tokenize {text : String} {ts : List Token} (h : tokenize text = .ok ts) :
    ∀ t ∈ ts, t.IsDescribable := by
  have hbrings : Brings (Cursor.start text).pulls ts := (Pull.tokens_eq_ok_iff _ _).mp h
  exact fun t ht => .inr (Cursor.isWritable_of_brings (List.append_nil _).symm hbrings t ht)

/-- A text that does not become tokens fails behind the good ones, which can be described and none of
which is a sentinel. -/
theorem tokenize_error {text : String} {failure : Failure} (h : tokenize text = .error failure) :
    ∃ front p more, (Cursor.start text).pulls = front ++ p :: more ∧
      Brings front (goodTokens text) ∧ p.outcome = .error failure ∧
      (∀ t ∈ goodTokens text, t.kind ≠ .endOfInput) ∧ ∀ t ∈ goodTokens text, t.IsDescribable := by
  obtain ⟨front, p, more, hpulls, hfront, hp⟩ := Pull.tokens_eq_error h
  exact ⟨front, p, more, hpulls, hfront, hp,
    Cursor.kind_ne_end_of_brings hpulls (List.cons_ne_nil p more) hfront,
    fun t ht => .inr (Cursor.isWritable_of_brings hpulls hfront t ht)⟩

/-- All tokens of a text that becomes tokens are good. -/
theorem goodTokens_of_tokenize {text : String} {ts : List Token} (h : tokenize text = .ok ts) :
    goodTokens text = ts := by
  have hbrings : Brings (Cursor.start text).pulls ts := (Pull.tokens_eq_ok_iff _ _).mp h
  have hgood := Pull.goodTokens_append hbrings []
  rwa [List.append_nil, Pull.goodTokens, List.append_nil] at hgood

/-- The outcome of a parse of a text is that of the run over its pulls. -/
theorem parseText_of_ok {room : Nat} {text : String} {tree : SyntaxTree} {s : ParseState}
    (h : Parse.wholeProgram (factorRoom room) (Parse.startOfPulls (Cursor.start text).pulls 1) =
      .ok tree s) : (parseText room text).outcome = .ok tree := by
  have hreport : parseText room text = ⟨.ok tree, s.log⟩ := parseSource_of_ok h
  rw [hreport]

theorem parseText_of_error {room : Nat} {text : String} {failure : Failure} {s : ParseState}
    (h : Parse.wholeProgram (factorRoom room) (Parse.startOfPulls (Cursor.start text).pulls 1) =
      .error failure s) : (parseText room text).outcome = .error failure := by
  have hreport : parseText room text = ⟨.error failure, s.log⟩ := parseSource_of_error h
  rw [hreport]

/-- Where the first reading fails, so does the parse. -/
theorem parseText_of_first_failing {room : Nat} {text : String} {p : Pull} {more : List Pull}
    {failure : Failure} (hpulls : (Cursor.start text).pulls = p :: more)
    (hp : p.outcome = .error failure) : (parseText room text).outcome = .error failure := by
  obtain ⟨s, hskip⟩ := Parse.skip_failure (s := Parse.startOfPulls (p :: more) 1) hp
  refine parseText_of_error (s := s) ?_
  rw [hpulls, Parse.wholeProgram_eq, Parse.bind_of_error hskip]

/-- A parse of a text that becomes tokens gives the tree of the tokens or complains of a token. -/
theorem Parse.tokenized_cases {d : Nat} {ps : List Pull} {us : List Token} {e : Token} (idle : Int)
    (hps : Brings ps (us ++ [e])) (hdescribable : ∀ t ∈ us ++ [e], t.IsDescribable)
    (he : e.kind = .endOfInput) (hframes : ∀ p ∈ ps, 3 ≤ p.frames) :
    (∃ tree s s', wholeProgram d (startOfPulls ps idle) = .ok tree s ∧
      wholeProgram d (startOf (us ++ [e])) = .ok tree s') ∨
    ∃ complaint : Complaint, ∃ t s, t.IsDescribable ∧
      wholeProgram d (startOfPulls ps idle) = .error (complaint.about t) s := by
  have hconcluded := hps.concluded he
  cases hrun : wholeProgram d (startOfPulls ps idle) with
  | ok tree s =>
    rw [← closeTokens_of_end he] at hps
    obtain ⟨s', hrun', -⟩ := wholeProgram_of_pulls hps hframes hrun
    exact .inl ⟨tree, s, s', rfl, hrun'⟩
  | error f s =>
    -- a parse is in lockstep with itself, and fails only with complaints
    rcases wholeProgram_alike (describedParse_rooms d) (hps.paired_described hdescribable hframes)
        hconcluded idle idle with ⟨_, _, _, _, hrun₁, -⟩ | ⟨_, _, hrun₁, halike⟩
    · rw [hrun] at hrun₁
      cases hrun₁
    · rw [hrun] at hrun₁
      injection hrun₁ with hf
      obtain ⟨complaint, t, -, ht, hcomplaint, -⟩ := halike.described
      exact .inr ⟨complaint, t, s, ht, by rw [hf, hcomplaint]⟩

/-- A parse of a text gives a tree, complains of a token, or comes to the failure of the lexer. The
tree is that of the tokens. -/
theorem parseText_cases (room : Nat) (text : String) :
    (∃ tree ts, (parseText room text).outcome = .ok tree ∧ tokenize text = .ok ts ∧
      (parseTokens room ts).outcome = .ok tree) ∨
    (∃ complaint t, (parseText room text).outcome =
      .error (.rejected (.unexpected complaint t t.line))) ∨
    ∃ failure, tokenize text = .error failure ∧ (parseText room text).outcome = .error failure := by
  have hframes : ∀ p ∈ (Cursor.start text).pulls, 3 ≤ p.frames := fun p hp =>
    Nat.le_trans (by decide) (Cursor.frames_bounds hp).1
  have hcomplains : ∀ {complaint : Complaint} {t : Token} {s : ParseState}, t.IsDescribable →
      Parse.wholeProgram (factorRoom room) (Parse.startOfPulls (Cursor.start text).pulls 1) =
        .error (complaint.about t) s →
      (parseText room text).outcome = .error (.rejected (.unexpected complaint t t.line)) := by
    intro complaint t s ht hrun
    rw [parseText_of_error hrun, complaint.about_of_describable ht]
  cases htokens : tokenize text with
  | ok ts =>
    have hbrings : Brings (Cursor.start text).pulls ts := (Pull.tokens_eq_ok_iff _ _).mp htokens
    obtain ⟨us, e, rfl, -, he⟩ := Cursor.brings_pulls hbrings
    rcases Parse.tokenized_cases (d := factorRoom room) 1 hbrings
        (isDescribable_of_tokenize htokens) he hframes with
      ⟨tree, s, s', hrun, hrun'⟩ | ⟨complaint, t, s, ht, hrun⟩
    · exact .inl ⟨tree, _, parseText_of_ok hrun, rfl, parseTokens_of_ok hrun'⟩
    · exact .inr (.inl ⟨complaint, t, hcomplains ht hrun⟩)
  | error failure =>
    obtain ⟨front, p, more, hpulls, hfront, hp, hts, hdescribable⟩ := tokenize_error htokens
    obtain ⟨line, hclosed⟩ := closeTokens_concat hts
    rw [hpulls] at hframes
    have hfrontFrames : ∀ q ∈ front, 3 ≤ q.frames := fun q hq =>
      hframes q (List.mem_append_left _ hq)
    right
    rcases Parse.failing_cases (d := factorRoom room) more 1 1 hfront hp hdescribable
        hfrontFrames hts hclosed (hframes p (by simp)) with
      ⟨s, hrun⟩ | ⟨complaint, t, s, -, ht, hrun, -⟩
    · exact .inr ⟨failure, rfl, parseText_of_error (hpulls ▸ hrun)⟩
    · exact .inl ⟨complaint, t, hcomplains ht (hpulls ▸ hrun)⟩

/-- A text that becomes a tree becomes tokens, and they become the tree. -/
theorem tokenize_of_parseText {room : Nat} {text : String} {tree : SyntaxTree}
    (h : (parseText room text).outcome = .ok tree) :
    ∃ ts, tokenize text = .ok ts ∧ (parseTokens room ts).outcome = .ok tree := by
  rcases parseText_cases room text with
    ⟨tree', ts, htree, htokens, hparse⟩ | ⟨_, _, herror⟩ | ⟨_, _, herror⟩
  · rw [h] at htree
    injection htree with htree
    exact ⟨ts, htokens, htree ▸ hparse⟩
  · rw [h] at herror
    cases herror
  · rw [h] at herror
    cases herror

/-! ## Texts whose parentheses leave room -/

section Guaranteed

variable {room : Nat} (hroom : guaranteedRoom ≤ room)

include hroom

/-- Where parentheses leave room, a parse of the pulls of tokens comes to the same as one of the
tokens. -/
theorem Parse.coincide_listed {ts : List Token} (hnesting : nesting ts ≤ guaranteedNesting)
    (hts : ∀ t ∈ ts, t.IsDescribable) {ps : List Pull} (hps : Brings ps (closeTokens ts))
    (hframes : ∀ p ∈ ps, p.frames ≤ 7) (idle : Int) :
    Coincide (wholeProgram (factorRoom room) (startOfPulls ps idle))
      (wholeProgram (factorRoom room) (startOf ts)) := by
  have hbefore : nesting (beforeEnd ts) ≤ guaranteedNesting :=
    Nat.le_trans (nesting_mono (List.takeWhile_prefix _)) hnesting
  -- four frames less are still enough, and taking a token of a list takes as many less
  have hless : ¬ Crowded (factorRoom room - 4) (beforeEnd ts) := by
    rw [not_crowded_iff]
    unfold guaranteedRoom at hroom
    unfold factorRoom
    omega
  have hclosed : ∀ t ∈ closeTokens ts, t.IsDescribable := fun t ht =>
    (mem_closeTokens ht).elim (hts t) .inl
  have hfour : factorRoom room - 4 + 4 ≤ factorRoom room := by
    unfold guaranteedRoom at hroom
    unfold factorRoom
    omega
  have htext := wholeProgram_coincides 4 hless hclosed hps hframes hfour idle
  have hlist := wholeProgram_coincides 0 hless hclosed (brings_ofToken _)
    (fun p hp => by
      obtain ⟨t, -, rfl⟩ := List.mem_map.mp hp
      exact Nat.le_refl 3)
    (Nat.sub_le _ 4) (((closeTokens ts).head?.map Token.line).getD 1)
  exact htext.symm.trans hlist

variable {text : String} (hnesting : nesting (goodTokens text) ≤ guaranteedNesting)

include hnesting

/-- A text that becomes tokens is parsed as they are. -/
theorem parseText_of_tokenize {ts : List Token} (h : tokenize text = .ok ts) :
    (parseText room text).outcome = (parseSource room (.ofTokens ts)).outcome := by
  have hbrings : Brings (Cursor.start text).pulls ts := (Pull.tokens_eq_ok_iff _ _).mp h
  rw [goodTokens_of_tokenize h] at hnesting
  have hclosed : closeTokens ts = ts := by
    obtain ⟨us, e, rfl, -, he⟩ := Cursor.brings_pulls hbrings
    exact closeTokens_of_end he
  have hcoincide := Parse.coincide_listed hroom hnesting (isDescribable_of_tokenize h)
    (hclosed.symm ▸ hbrings) (fun p hp => (Cursor.frames_bounds hp).2) 1
  cases hrun : Parse.wholeProgram (factorRoom room) (Parse.startOf ts) with
  | ok tree s =>
    have hreport : parseSource room (.ofTokens ts) = ⟨.ok tree, s.log⟩ := parseSource_of_ok hrun
    rw [hrun] at hcoincide
    generalize hrun' : Parse.wholeProgram _ _ = r at hcoincide
    cases hcoincide
    rw [hreport, parseText_of_ok hrun']
  | error failure s =>
    have hreport : parseSource room (.ofTokens ts) = ⟨.error failure, s.log⟩ :=
      parseSource_of_error hrun
    rw [hrun] at hcoincide
    generalize hrun' : Parse.wholeProgram _ _ = r at hcoincide
    cases hcoincide
    rw [hreport, parseText_of_error hrun']

/-- A text that does not become tokens is not parsed. The parse rejects what a parse of the good
tokens rejects, if that is one of them, and otherwise comes to the failure of the lexer. -/
theorem parseText_of_failing {failure : Failure} (h : tokenize text = .error failure) :
    (∀ f, RejectsOneOf room (goodTokens text) f → (parseText room text).outcome = .error f) ∧
      ((¬ ∃ f, RejectsOneOf room (goodTokens text) f) →
        (parseText room text).outcome = .error failure) := by
  obtain ⟨front, p, more, hpulls, hfront, hp, hts, hdescribable⟩ := tokenize_error h
  obtain ⟨line, hclosed⟩ := closeTokens_concat hts
  generalize ({ kind := .endOfInput, line } : Token) = e at hclosed
  have hframes : ∀ q ∈ front ++ p :: more, 5 ≤ q.frames ∧ q.frames ≤ 7 := fun q hq =>
    Cursor.frames_bounds (hpulls ▸ hq)
  have hthree : ∀ q ∈ front, 3 ≤ q.frames := fun q hq =>
    Nat.le_trans (by decide) (hframes q (List.mem_append_left _ hq)).1
  have hmended : Brings (front ++ [p.mend e]) (closeTokens (goodTokens text)) := by
    rw [hclosed]
    exact hfront.append (.cons rfl .nil)
  have hcoincide := Parse.coincide_listed hroom hnesting hdescribable hmended (fun q hq => by
    rcases List.mem_append.mp hq with hq | hq
    · exact (hframes q (List.mem_append_left _ hq)).2
    · rw [List.mem_singleton.mp hq]
      exact (hframes p (by simp)).2) 1
  constructor
  · intro f hf
    have ⟨u, t, rest, _, s, hsplit, _, hrun, _⟩ := hf
    have hahead := (Parse.rejectsOneOf_iff hts hdescribable hrun).mp hf
    rw [hrun] at hcoincide
    generalize hrun' : Parse.wholeProgram _ _ = r at hcoincide
    cases hcoincide with
    | @failure _ s' _ hlength =>
      have hahead' : s'.source.ahead ≠ [] := fun hnil => hahead (by
        rw [hnil] at hlength
        exact List.eq_nil_of_length_eq_zero hlength.symm)
      obtain ⟨s'', hrun''⟩ := Parse.failing_of_mended more 1 1 hfront hdescribable hthree
        (by rw [hsplit]; simp) hrun' hahead'
      exact parseText_of_error (hpulls ▸ hrun'')
  · intro hnone
    rcases Parse.failing_cases (d := factorRoom room) more 1 1 hfront hp hdescribable
        hthree hts hclosed (Nat.le_trans (by decide) (hframes p (by simp)).1) with
      ⟨s, hrun⟩ | ⟨complaint, t, s, s', ht, hrun, hrun', hahead⟩
    · exact parseText_of_error (hpulls ▸ hrun)
    · rw [hrun'] at hcoincide
      generalize hrun'' : Parse.wholeProgram _ (Parse.startOf _) = r at hcoincide
      cases hcoincide with
      | @failure _ _ s'' hlength =>
        refine absurd ⟨_, (Parse.rejectsOneOf_iff hts hdescribable hrun'').mpr fun hnil => ?_⟩ hnone
        rw [hnil] at hlength
        exact hahead (List.eq_nil_of_length_eq_zero hlength)

/-- A text that becomes tokens is parsed as they are. Any other text is not parsed: the parse rejects
what a parse of the good tokens rejects, if that is one of them, and otherwise comes to the failure
of the lexer. -/
theorem parseText_interleaves :
    (∀ ts, tokenize text = .ok ts →
      (parseText room text).outcome = (parseSource room (.ofTokens ts)).outcome ∧
      (parseText room text).written.outcome = (parseTokens room ts).outcome) ∧
    (∀ failure, tokenize text = .error failure →
      (∀ f, RejectsOneOf room (goodTokens text) f → (parseText room text).outcome = .error f) ∧
      ((¬ ∃ f, RejectsOneOf room (goodTokens text) f) →
        (parseText room text).outcome = .error failure)) ∧
    ∀ tree, (parseText room text).outcome = .ok tree → ∃ ts, tokenize text = .ok ts := by
  refine ⟨fun ts hts => ?_, fun failure => parseText_of_failing hroom hnesting, fun tree htree => ?_⟩
  · have hsame := parseText_of_tokenize hroom hnesting hts
    exact ⟨hsame, congrArg (Except.mapError Failure.written) hsame⟩
  · obtain ⟨ts, hts, -⟩ := tokenize_of_parseText htree
    exact ⟨ts, hts⟩

end Guaranteed

/-- A closing parenthesis, which no program begins with, and a character of no token. -/
def rejectedText : String := ") @"

/-- A name, with which a program may begin, and a character of no token. -/
def failingText : String := "x @"

/-- Of the two errors in a text, each wins in one of the samples. -/
theorem sampleTexts_interleave : guaranteedRoom ≤ 700 ∧
    (nesting (goodTokens sampleText) ≤ guaranteedNesting ∧
      ∃ tree, tokenize sampleText = .ok sampleTextTokens ∧
        (parseText 700 sampleText).outcome = .ok tree) ∧
    (nesting (goodTokens rejectedText) ≤ guaranteedNesting ∧
      tokenize rejectedText = .error (.rejected (.lexical (.unexpectedCharacter '@') 1)) ∧
      (parseText 700 rejectedText).outcome = .error (.rejected
        (.unexpected (.expected .value) ⟨.closeParen, .text ")", 1, 1⟩ 1))) ∧
    nesting (goodTokens failingText) ≤ guaranteedNesting ∧
      tokenize failingText = .error (.rejected (.lexical (.unexpectedCharacter '@') 1)) ∧
      (parseText 700 failingText).outcome =
        .error (.rejected (.lexical (.unexpectedCharacter '@') 1)) := by
  have hroom : guaranteedRoom ≤ 700 := by decide
  refine ⟨hroom, ?_, ?_, ?_⟩
  · have hsample : tokenize sampleText = .ok sampleTextTokens := by cbv
    have hnesting : nesting (goodTokens sampleText) ≤ guaranteedNesting := by
      rw [goodTokens_of_tokenize hsample]
      decide
    obtain ⟨htokens, -, hlexes⟩ := parseText_interleaves hroom hnesting
    obtain ⟨tree, htree⟩ : ∃ tree,
        (parseSource 700 (.ofTokens sampleTextTokens)).outcome = .ok tree := ⟨_, rfl⟩
    rw [← (htokens _ hsample).1] at htree
    obtain ⟨ts, hts⟩ := hlexes tree htree
    exact ⟨hnesting, tree, by rw [hts, ← hsample, hts], htree⟩
  · have hfails : tokenize rejectedText =
        .error (.rejected (.lexical (.unexpectedCharacter '@') 1)) := by cbv
    have hgood : goodTokens rejectedText = [⟨.closeParen, .text ")", 1, 1⟩] := by cbv
    have hnesting : nesting (goodTokens rejectedText) ≤ guaranteedNesting := by
      rw [hgood]
      decide
    have hrejects : RejectsOneOf 700 (goodTokens rejectedText) (.rejected
        (.unexpected (.expected .value) ⟨.closeParen, .text ")", 1, 1⟩ 1)) := by
      rw [hgood]
      exact ⟨[], _, [], .expected .value, _, rfl, rfl, rfl, rfl⟩
    exact ⟨hnesting, hfails, ((parseText_interleaves hroom hnesting).2.1 _ hfails).1 _ hrejects⟩
  · have hfails : tokenize failingText =
        .error (.rejected (.lexical (.unexpectedCharacter '@') 1)) := by cbv
    have hgood : goodTokens failingText = [⟨.ident, .text "x", 1, 1⟩] := by cbv
    have hnesting : nesting (goodTokens failingText) ≤ guaranteedNesting := by
      rw [hgood]
      decide
    have hnone : ¬ ∃ f, RejectsOneOf 700 (goodTokens failingText) f := by
      rw [hgood]
      rintro ⟨f, hf⟩
      obtain ⟨s, hrun, hahead⟩ : ∃ s, Parse.wholeProgram (factorRoom 700)
          (Parse.startOf [⟨.ident, .text "x", 1, 1⟩]) = .error (.rejected (.unexpected
            (.expected .semicolon) { kind := .endOfInput, line := 1 } 1)) s ∧
          s.source.ahead = [] := ⟨_, rfl, rfl⟩
      obtain ⟨_, _, _, _, _, _, _, hrun', _⟩ := id hf
      rw [hrun] at hrun'
      injection hrun' with hf'
      subst hf'
      have hdescribable : ∀ t ∈ [(⟨.ident, .text "x", 1, 1⟩ : Token)], t.IsDescribable := by decide
      exact (Parse.rejectsOneOf_iff (by simp) hdescribable hrun).mp hf hahead
    exact ⟨hnesting, hfails, ((parseText_interleaves hroom hnesting).2.1 _ hfails).2 hnone⟩

end MflFrontend
