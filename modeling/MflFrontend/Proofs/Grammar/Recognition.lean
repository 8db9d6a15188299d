import Mathlib
import MflFrontend.Proofs.Grammar.Completeness

/-!
# The parser recognises its grammar

A list of tokens is closed by a sentinel and read up to the first one. What stands before it is the
program: the parse gives a tree exactly if the program can be derived, as far as its parentheses do
not nest too deeply, and the tree is that of the derivation.
-/

namespace MflFrontend

/-! ## The first sentinel -/

/-- A closed list ends with a sentinel. -/
theorem closeTokens_last (ts : List Token) :
    ∃ us e, closeTokens ts = us ++ [e] ∧ e.kind = .endOfInput := by
  unfold closeTokens
  rcases List.eq_nil_or_concat ts with rfl | ⟨us, last, rfl⟩
  · exact ⟨[], _, rfl, rfl⟩
  · rw [List.concat_eq_append, List.getLast?_concat]
    by_cases hlast : last.kind = .endOfInput
    · simp only [hlast, if_true]
      exact ⟨us, last, rfl, hlast⟩
    · simp only [hlast, if_false]
      exact ⟨_, _, rfl, rfl⟩

/-- Closing adds nothing but a sentinel. -/
theorem mem_closeTokens {ts : List Token} {t : Token} (h : t ∈ closeTokens ts) :
    t ∈ ts ∨ t.kind = .endOfInput := by
  unfold closeTokens at h
  split at h
  · exact .inr (List.mem_singleton.mp h ▸ rfl)
  · split at h
    · exact .inl h
    · rcases List.mem_append.mp h with h | h
      · exact .inl h
      · exact .inr (List.mem_singleton.mp h ▸ rfl)

theorem closeTokens_endsInput (ts : List Token) : EndsInput (closeTokens ts) := by
  obtain ⟨us, e, hclosed, he⟩ := closeTokens_last ts
  exact ⟨e, by simp [hclosed], he⟩

theorem beforeEnd_end {e : Token} (he : e.kind = .endOfInput) (rest : List Token) :
    beforeEnd (e :: rest) = [] := by
  simp [beforeEnd, he]

theorem beforeEnd_other {t : Token} (ht : t.kind ≠ .endOfInput) (rest : List Token) :
    beforeEnd (t :: rest) = t :: beforeEnd rest := by
  simp [beforeEnd, ht]

/-- What stands before the first sentinel, once it is known. -/
theorem beforeEnd_append {v : List Token} (hv : ∀ t ∈ v, t.kind ≠ .endOfInput) {e : Token}
    (he : e.kind = .endOfInput) (rest : List Token) : beforeEnd (v ++ e :: rest) = v := by
  induction v with
  | nil => exact beforeEnd_end he rest
  | cons t v ih =>
    rw [List.cons_append, beforeEnd_other (hv t List.mem_cons_self),
      ih fun u hu => hv u (List.mem_cons_of_mem _ hu)]

theorem beforeEnd_snoc (ts : List Token) {e : Token} (he : e.kind = .endOfInput) :
    beforeEnd (ts ++ [e]) = beforeEnd ts := by
  induction ts with
  | nil => exact beforeEnd_end he []
  | cons t ts ih =>
    by_cases ht : t.kind = .endOfInput
    · rw [List.cons_append, beforeEnd_end ht, beforeEnd_end ht]
    · rw [List.cons_append, beforeEnd_other ht, beforeEnd_other ht, ih]

theorem beforeEnd_eq_self {v : List Token} (hv : ∀ t ∈ v, t.kind ≠ .endOfInput) :
    beforeEnd v = v := by
  let e : Token := { kind := .endOfInput }
  rw [← beforeEnd_snoc v (e := e) rfl, beforeEnd_append hv rfl]

/-- Closing a list of tokens changes nothing before its first sentinel. -/
theorem beforeEnd_closeTokens (ts : List Token) : beforeEnd (closeTokens ts) = beforeEnd ts := by
  unfold closeTokens
  cases hlast : ts.getLast? with
  | none =>
    rw [List.getLast?_eq_none_iff.mp hlast]
    rfl
  | some last =>
    by_cases hk : last.kind = .endOfInput
    · simp only [hk, if_true]
    · simp only [hk, if_false]
      exact beforeEnd_snoc ts rfl

/-- A list that ends with the sentinel is closed. -/
theorem closeTokens_of_end {ts : List Token} {e : Token} (he : e.kind = .endOfInput) :
    closeTokens (ts ++ [e]) = ts ++ [e] := by
  unfold closeTokens
  rw [List.getLast?_concat]
  simp only [he, if_true]

/-- Without a sentinel among them, tokens are closed by one that carries nothing. -/
theorem closeTokens_concat {ts : List Token} (h : ∀ t ∈ ts, t.kind ≠ .endOfInput) :
    ∃ line, closeTokens ts = ts ++ [{ kind := .endOfInput, line }] := by
  unfold closeTokens
  cases hlast : ts.getLast? with
  | none => exact ⟨1, by rw [List.getLast?_eq_none_iff.mp hlast]; rfl⟩
  | some last =>
    have hk : last.kind ≠ .endOfInput := h last (List.mem_of_getLast? hlast)
    simp only [hk, if_false]
    exact ⟨_, rfl⟩

/-- A list with a sentinel splits at the first one. -/
theorem EndsInput.split {ts : List Token} (h : EndsInput ts) :
    ∃ e rest, ts = beforeEnd ts ++ e :: rest ∧ e.kind = .endOfInput := by
  induction ts with
  | nil =>
    obtain ⟨e, he, -⟩ := h
    exact absurd he List.not_mem_nil
  | cons t ts ih =>
    by_cases ht : t.kind = .endOfInput
    · exact ⟨t, ts, by rw [beforeEnd_end ht, List.nil_append], ht⟩
    · obtain ⟨e, rest, hsplit, he⟩ := ih (h.tail ht)
      refine ⟨e, rest, ?_, he⟩
      rw [beforeEnd_other ht, List.cons_append, ← hsplit]

/-- Up to a token behind no sentinel, parentheses nest no deeper than before the first sentinel. -/
theorem nesting_upto {u rest : List Token} {t : Token} (hu : ∀ a ∈ u, a.kind ≠ .endOfInput) :
    nesting (u ++ [t]) ≤ nesting (beforeEnd (u ++ t :: rest)) := by
  by_cases ht : t.kind = .endOfInput
  · rw [beforeEnd_append hu ht, nesting_concat (by rw [ht]; decide)]
  · refine nesting_mono ?_
    induction u with
    | nil =>
      rw [List.nil_append, List.nil_append, beforeEnd_other ht]
      exact ⟨beforeEnd rest, rfl⟩
    | cons a u ih =>
      rw [List.cons_append, List.cons_append, beforeEnd_other (hu a List.mem_cons_self)]
      exact (List.prefix_cons_inj a).mpr (ih fun b hb => hu b (List.mem_cons_of_mem a hb))

theorem DerivesProgram.kind_ne_end {w : List Token} {tree : SyntaxTree}
    (h : DerivesProgram w tree) : ∀ t ∈ w, t.kind ≠ .endOfInput := by
  obtain ⟨_, _, _, _, hall, _⟩ := h
  exact hall.kind_ne_end

/-! ## The first and the last step -/

namespace Parse

/-- The state in which a parse of tokens begins. -/
def startOf (ts : List Token) : ParseState := { source := .ofTokens ts }

/-- The first step leads before the first token. -/
theorem skip_startOf (ts : List Token) :
    ∃ last, skip (startOf ts) = .ok () (.before (.ofToken last) [] (closeTokens ts)) := by
  obtain ⟨t, us, hclosed⟩ := (closeTokens_endsInput ts).exists_cons
  refine ⟨(closeTokens ts).getLastD { kind := .endOfInput, line := 1 }, ?_⟩
  have hfinal : ((closeTokens ts).map Pull.ofToken).getLastD
      (.ofToken { kind := .endOfInput, line := 1 }) =
      .ofToken ((closeTokens ts).getLastD { kind := .endOfInput, line := 1 }) := by
    rw [List.getLastD_eq_getLast?, List.getLast?_map, List.getLastD_eq_getLast?]
    cases (closeTokens ts).getLast? <;> rfl
  unfold startOf TokenSource.ofTokens TokenSource.ofPulls
  simp only
  rw [hfinal, hclosed]
  rfl

/-- The last step takes the sentinel. -/
theorem expect_end (last : Token) (log : List LogRecord) (rest : List Token) {e : Token}
    (he : e.kind = .endOfInput) :
    ∃ s, expect .endOfInput .endOfInput (.before (.ofToken last) log (e :: rest)) = .ok e s ∧
      s.log = log := by
  cases rest with
  | nil =>
    simp only [expect, bind_of_ok (current_before ..), he, if_true]
    exact ⟨_, rfl, rfl⟩
  | cons t rest =>
    simp only [expect, bind_of_ok (current_before ..), he, if_true]
    exact ⟨_, rfl, rfl⟩

/-! ## Whole programs -/

/-- A tree comes of a derivation of the program; a rejection is of the first token behind which no
program can be continued any more. -/
theorem wholeProgram_yields (d : Nat) (ts : List Token) :
    ∃ last, (wholeProgram d).Yields (startOf ts)
      (fun tree _ => DerivesProgram (beforeEnd ts) tree)
      (Rejected d ViableProgram (.ofToken last) [] (closeTokens ts)) := by
  obtain ⟨last, hskip⟩ := skip_startOf ts
  have hend := closeTokens_endsInput ts
  have hbefore := beforeEnd_closeTokens ts
  obtain ⟨first, us, hclosed⟩ := hend.exists_cons
  refine ⟨last, ?_⟩
  rw [hclosed] at hskip hend hbefore ⊢
  refine Yields.step hskip ?_
  refine Yields.step (currentLine_before ..) ?_
  refine Yields.bind (programStatements_yields d hend) (fun _ _ h => h) ?_
  rintro ns _ ⟨v, e, rest, hsplit, hns, hv, he, rfl⟩
  obtain ⟨s, hexpect, -⟩ := expect_end last [] rest he
  refine Yields.step hexpect ?_
  refine Yields.of_ok rfl ?_
  rw [← hbefore, hsplit, beforeEnd_append hv.kind_ne_end he]
  obtain ⟨t, v, rfl⟩ := List.exists_cons_of_ne_nil (hv.ne_nil hns)
  rw [List.cons_append, List.cons.injEq] at hsplit
  exact ⟨t, ns, rfl, hns, hv, by rw [hsplit.1]⟩

/-- Where parentheses leave room, none is one too many inside others. -/
theorem wholeProgram_shallow {d : Nat} {ts : List Token} (hd : ¬ Crowded d (beforeEnd ts)) (t : Token)
    (line : Int) (s : ParseState) :
    wholeProgram d (startOf ts) ≠ .error (.rejected (.unexpected .nestedTooDeeply t line)) s := by
  intro hrun
  obtain ⟨last, hyields⟩ := wholeProgram_yields d ts
  obtain ⟨u, t', rest, complaint, hclosed, hu, hdeep, hfailure, -⟩ := hyields.bad_of_error hrun
  obtain ⟨-, he⟩ := Complaint.about_eq_rejected hfailure.symm
  injection he with hcomplaint
  have hcrowded := hdeep hcomplaint.symm
  obtain ⟨v, tree, hviable⟩ := hu
  have hne : ∀ a ∈ u, a.kind ≠ .endOfInput := fun a ha =>
    hviable.kind_ne_end a (List.mem_append_left v ha)
  rw [← beforeEnd_closeTokens, hclosed] at hd
  have hnesting : nesting (u ++ [t']) ≤ nesting (beforeEnd (u ++ t' :: rest)) := nesting_upto hne
  unfold Crowded at hd hcrowded
  omega

/-- Where all tokens can be described, a parse that fails rejects one of them. -/
theorem wholeProgram_rejects {d : Nat} {ts : List Token} (hts : ∀ t ∈ closeTokens ts, t.IsDescribable)
    {failure : Failure} {s : ParseState} (hrun : wholeProgram d (startOf ts) = .error failure s) :
    ∃ complaint : Complaint, ∃ t,
      failure = .rejected (.unexpected complaint t t.line) ∧ t ∈ closeTokens ts := by
  obtain ⟨last, hyields⟩ := wholeProgram_yields d ts
  obtain ⟨u, t, rest, complaint, hclosed, -, -, rfl, -⟩ := hyields.bad_of_error hrun
  have ht : t ∈ closeTokens ts := by simp [hclosed]
  exact ⟨complaint, t, complaint.about_of_describable (hts t ht), ht⟩

/-- A program that can be derived is read, if its parentheses leave room. -/
theorem wholeProgram_of_derives {d : Nat} {ts : List Token} {tree : SyntaxTree}
    (h : DerivesProgram (beforeEnd ts) tree) (hd : ¬ Crowded d (beforeEnd ts)) :
    ∃ s, wholeProgram d (startOf ts) = .ok tree s := by
  obtain ⟨first, ns, hfirst, hns, hall, rfl⟩ := h
  obtain ⟨last, hskip⟩ := skip_startOf ts
  obtain ⟨e, rest, hsplit, he⟩ := (closeTokens_endsInput ts).split
  rw [beforeEnd_closeTokens] at hsplit
  obtain ⟨us, hus⟩ : ∃ us, beforeEnd ts = first :: us := List.head?_eq_some_iff.mp hfirst
  have hline : currentLine (.before (.ofToken last) [] (closeTokens ts)) =
      .ok first.line (.before (.ofToken last) [] (closeTokens ts)) := by
    rw [hsplit, hus]
    rfl
  have hread := programStatements_of_derives hall hns hd (.ofToken last) [] he rest
  obtain ⟨s, hexpect, -⟩ := expect_end last [] rest he
  rw [← hsplit] at hread
  refine ⟨{ s with log := s.log ++ [.parsed ns.length] }, ?_⟩
  rw [wholeProgram, bind_of_ok hskip, bind_of_ok hline, bind_of_ok hread, bind_of_ok hexpect]
  rfl

end Parse

/-- A program has one tree. -/
theorem DerivesProgram.unique {w : List Token} {tree tree' : SyntaxTree}
    (h : DerivesProgram w tree) (h' : DerivesProgram w tree') : tree = tree' := by
  have hw : beforeEnd w = w := beforeEnd_eq_self h.kind_ne_end
  have hroom : ¬ Crowded (6 * nesting w + 4) w := not_crowded_iff.mpr (Nat.le_refl _)
  rw [← hw] at h h' hroom
  obtain ⟨s, hs⟩ := Parse.wholeProgram_of_derives h hroom
  obtain ⟨s', hs'⟩ := Parse.wholeProgram_of_derives h' hroom
  rw [hs] at hs'
  injection hs'

/-! ## Parses of token lists -/

/-- There is room for parentheses that nest no deeper than guaranteed. -/
theorem not_crowded_of_guaranteed {room : Nat} {w : List Token}
    (hw : nesting w ≤ guaranteedNesting) (hroom : guaranteedRoom ≤ room) :
    ¬ Crowded (factorRoom room) w := by
  refine not_crowded_iff.mpr ?_
  unfold guaranteedRoom at hroom
  unfold factorRoom
  omega

/-- A list of tokens becomes a tree exactly if its parse does. -/
theorem parseTokens_ok_iff {room : Nat} {ts : List Token} {tree : SyntaxTree} :
    (parseTokens room ts).outcome = .ok tree ↔
      (parseSource room (.ofTokens ts)).outcome = .ok tree := ParseReport.written_ok_iff

/-- What a parse of tokens comes to is what its run comes to, written. -/
theorem parseTokens_of_ok {room : Nat} {ts : List Token} {tree : SyntaxTree} {s : ParseState}
    (h : Parse.wholeProgram (factorRoom room) (Parse.startOf ts) = .ok tree s) :
    (parseTokens room ts).outcome = .ok tree := by
  have hreport : parseSource room (.ofTokens ts) = ⟨.ok tree, s.log⟩ := parseSource_of_ok h
  exact parseTokens_ok_iff.mpr (by rw [hreport])

theorem parseTokens_of_error {room : Nat} {ts : List Token} {failure : Failure} {s : ParseState}
    (h : Parse.wholeProgram (factorRoom room) (Parse.startOf ts) = .error failure s) :
    (parseTokens room ts).outcome = .error failure.written := by
  have hreport : parseSource room (.ofTokens ts) = ⟨.error failure, s.log⟩ := parseSource_of_error h
  rw [parseTokens, hreport]
  rfl

theorem run_of_parseTokens {room : Nat} {ts : List Token} {tree : SyntaxTree}
    (h : (parseTokens room ts).outcome = .ok tree) :
    ∃ s, Parse.wholeProgram (factorRoom room) (Parse.startOf ts) = .ok tree s :=
  run_of_parseSource (parseTokens_ok_iff.mp h)

/-- Tokens that become a tree are a program and the tree is that of its derivation. -/
theorem derives_of_parseTokens {room : Nat} {ts : List Token} {tree : SyntaxTree}
    (h : (parseTokens room ts).outcome = .ok tree) : DerivesProgram (beforeEnd ts) tree := by
  obtain ⟨s, hs⟩ := run_of_parseTokens h
  obtain ⟨last, hyields⟩ := Parse.wholeProgram_yields (factorRoom room) ts
  exact hyields.good_of_ok hs

/-- A program whose parentheses leave room becomes its tree. -/
theorem parseTokens_of_derives {room : Nat} {ts : List Token} {tree : SyntaxTree}
    (h : DerivesProgram (beforeEnd ts) tree) (hroom : ¬ Crowded (factorRoom room) (beforeEnd ts)) :
    (parseTokens room ts).outcome = .ok tree := by
  obtain ⟨s, hs⟩ := Parse.wholeProgram_of_derives h hroom
  exact parseTokens_of_ok hs

/-- Tokens that become a tree are a program and the tree is that of its derivation, whatever room
the parse has; with the room that a parse has at least, a program whose parentheses nest no deeper
than guaranteed becomes its tree; and no program has two trees. -/
theorem parseTokens_recognizes (ts : List Token) :
    (∀ room tree, (parseTokens room ts).outcome = .ok tree →
      DerivesProgram (beforeEnd ts) tree) ∧
    (∀ room tree, guaranteedRoom ≤ room → DerivesProgram (beforeEnd ts) tree →
      nesting (beforeEnd ts) ≤ guaranteedNesting → (parseTokens room ts).outcome = .ok tree) ∧
    (∀ tree tree', DerivesProgram (beforeEnd ts) tree → DerivesProgram (beforeEnd ts) tree' →
      tree = tree') := by
  refine ⟨fun room tree htree => derives_of_parseTokens htree, fun room tree hroom h hd => ?_,
    fun tree tree' h h' => h.unique h'⟩
  exact parseTokens_of_derives h (not_crowded_of_guaranteed hd hroom)

/-- The program `val x := not (a + 1) < b;` with `y;` on a second line. -/
def sampleTokens : List Token :=
  [⟨.valWord, .text "val", 1, 1⟩, ⟨.ident, .text "x", 1, 5⟩, ⟨.assign, .text ":=", 1, 7⟩,
    ⟨.notWord, .text "not", 1, 10⟩, ⟨.openParen, .text "(", 1, 14⟩, ⟨.ident, .text "a", 1, 15⟩,
    ⟨.plus, .text "+", 1, 17⟩, ⟨.intLit, .int 1, 1, 19⟩, ⟨.closeParen, .text ")", 1, 20⟩,
    ⟨.less, .text "<", 1, 22⟩, ⟨.ident, .text "b", 1, 24⟩, ⟨.semicolon, .text ";", 1, 25⟩,
    ⟨.ident, .text "y", 2, 1⟩, ⟨.semicolon, .text ";", 2, 2⟩]

/-- The tree of the sample: the negation is of the parenthesis alone. -/
def sampleTree : SyntaxTree :=
  ⟨.program 1
    [.binary 1 (.leaf 1 ⟨.ident, .text "x", 1, 5⟩)
      (.relation 1
        (.unary 1
          (.binary 1 (.leaf 1 ⟨.ident, .text "a", 1, 15⟩) (.leaf 1 ⟨.intLit, .int 1, 1, 19⟩) .plus)
          .notWord)
        (.leaf 1 ⟨.ident, .text "b", 1, 24⟩) .less)
      .assign,
    .leaf 2 ⟨.ident, .text "y", 2, 1⟩]⟩

set_option maxRecDepth 100000 in
/-- The sample is a program, and is read. -/
theorem sampleTokens_recognized : DerivesProgram (beforeEnd sampleTokens) sampleTree ∧
    nesting (beforeEnd sampleTokens) ≤ guaranteedNesting ∧
    (parseTokens guaranteedRoom sampleTokens).outcome = .ok sampleTree := by
  obtain ⟨hsound, hcomplete, -⟩ := parseTokens_recognizes sampleTokens
  have hderives := hsound 40 sampleTree (by cbv)
  have hnesting : nesting (beforeEnd sampleTokens) ≤ guaranteedNesting := by decide
  exact ⟨hderives, hnesting,
    hcomplete guaranteedRoom sampleTree (Nat.le_refl _) hderives hnesting⟩

end MflFrontend
