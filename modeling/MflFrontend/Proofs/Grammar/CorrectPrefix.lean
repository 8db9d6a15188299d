import Mathlib
import MflFrontend.Proofs.Grammar.Kinds

/-!
# Errors are found as early as they can be

A parse that fails stands before the first token that can follow what was taken in no program: all
before it can be continued to a program and its sentinel, and together with it cannot. The first
half is part of what readers keep. For the second, a program that went on from there would be read
to its end, and the parse that failed would have gone in lockstep.
-/

namespace MflFrontend

/-- The tokens up to the first sentinel, and the sentinel. -/
def throughEnd : List Token → List Token
  | [] => []
  | t :: ts => if t.kind = .endOfInput then [t] else t :: throughEnd ts

/-- The tokens can be continued to a program with a sentinel behind it. -/
def ViableInput (u : List Token) : Prop :=
  ∃ w tree e, DerivesProgram w tree ∧ e.kind = .endOfInput ∧ u <+: w ++ [e]

/-- Tokens without a sentinel at the front of a list stand before its first sentinel, and the token
behind them stands no later than it. -/
theorem prefix_throughEnd {u : List Token} (hu : ∀ t ∈ u, t.kind ≠ .endOfInput) {t : Token}
    {rest : List Token} (h : EndsInput (u ++ t :: rest)) :
    u ++ [t] <+: throughEnd (u ++ t :: rest) := by
  induction u with
  | nil =>
    by_cases ht : t.kind = .endOfInput
    · simp [throughEnd, ht]
    · simp [throughEnd, ht]
  | cons a u ih =>
    have ha : a.kind ≠ .endOfInput := hu a List.mem_cons_self
    have hrest := ih (fun b hb => hu b (List.mem_cons_of_mem _ hb)) (h.tail ha)
    simp only [List.cons_append, throughEnd, if_neg ha]
    exact List.prefix_cons_inj a |>.mpr hrest

theorem beforeEnd_prefix_throughEnd (ts : List Token) : beforeEnd ts <+: throughEnd ts := by
  induction ts with
  | nil => exact List.prefix_refl []
  | cons t ts ih =>
    by_cases ht : t.kind = .endOfInput
    · rw [beforeEnd_end ht]
      exact List.nil_prefix
    · rw [beforeEnd_other ht, throughEnd, if_neg ht]
      exact (List.prefix_cons_inj t).mpr ih

theorem ViableProgram.kind_ne_end {u : List Token} (h : ViableProgram u) :
    ∀ t ∈ u, t.kind ≠ .endOfInput := by
  obtain ⟨v, tree, _, _, _, _, hall, _⟩ := h
  exact fun t ht => hall.kind_ne_end t (List.mem_append_left v ht)

/-- What can be continued to a program can be continued to a program and its sentinel. -/
theorem ViableProgram.input {u : List Token} (h : ViableProgram u) : ViableInput u := by
  obtain ⟨v, tree, htree⟩ := h
  let e : Token := { kind := .endOfInput }
  exact ⟨u ++ v, tree, e, htree, rfl, by rw [List.append_assoc]; exact List.prefix_append u _⟩

/-- A sentinel can follow only a program. -/
theorem ViableInput.program_of_end {u : List Token} {t : Token} (hu : ∀ a ∈ u, a.kind ≠ .endOfInput)
    (ht : t.kind = .endOfInput) (h : ViableInput (u ++ [t])) : ∃ tree, DerivesProgram u tree := by
  obtain ⟨w, tree, e, htree, he, z, hz⟩ := h
  have hw : ∀ a ∈ w, a.kind ≠ .endOfInput := by
    obtain ⟨_, _, _, _, hall, _⟩ := htree
    exact hall.kind_ne_end
  rw [List.append_assoc, List.singleton_append] at hz
  have hwu : w = u := by
    rw [← beforeEnd_append hu ht z, hz, beforeEnd_append hw he]
  exact ⟨tree, hwu ▸ htree⟩

/-- Any other token can follow only the front part of a program. -/
theorem ViableInput.program_of_ne_end {u : List Token} {t : Token} (ht : t.kind ≠ .endOfInput)
    (h : ViableInput (u ++ [t])) : ∃ z tree, DerivesProgram (u ++ t :: z) tree := by
  obtain ⟨w, tree, e, htree, he, hfront⟩ := h
  rcases List.prefix_concat_iff.mp hfront with heq | ⟨z, hz⟩
  · have hte : t = e := by
      have := congrArg List.getLast? heq
      simpa using this
    exact absurd (hte ▸ he) ht
  · refine ⟨z, tree, ?_⟩
    rw [List.append_assoc, List.singleton_append] at hz
    rwa [hz]

namespace Parse

/-- Two parses of lists with a common front part are abreast before the first token. Where the front
part ends with a sentinel, the second list may end there. -/
theorem abreast_before {K : Pairing} (hK : ∀ t, K.token t t) {u rest rest' : List Token} {t : Token}
    (hrest : rest ≠ []) (hrest' : rest' ≠ [] ∨ t.kind = .endOfInput) (final final' : Pull)
    (hfinal : final'.frames = 3) (log log' : List LogRecord) :
    Abreast K (rest.map .ofToken) (rest'.map .ofToken) (.before final log (u ++ t :: rest))
      (.before final' log' (u ++ t :: rest')) := by
  obtain ⟨a, us, hsplit⟩ : ∃ a us, u ++ [t] = a :: us :=
    List.exists_cons_of_ne_nil (by simp)
  have hlist : ∀ ts, u ++ t :: ts = a :: (us ++ ts) := fun ts => by
    rw [← List.cons_append, ← hsplit, List.append_assoc, List.singleton_append]
  have hhead : ((rest.map Pull.ofToken).headD final).frames = 3 := by
    obtain ⟨b, bs, rfl⟩ := List.exists_cons_of_ne_nil hrest
    rfl
  have hhead' : ((rest'.map Pull.ofToken).headD final').frames = 3 := by
    cases rest' with
    | nil => exact hfinal
    | cons b bs => rfl
  rw [hlist rest, hlist rest']
  refine ⟨us.map .ofToken, us.map .ofToken, a, a, ?_, ?_,
    Pull.paired_ofToken (List.forall₂_same.mpr fun b _ => hK b), rfl, rfl, hK a,
    .inl ⟨by simpa using hrest, ?_, .inr (hhead.trans hhead'.symm)⟩⟩
  · simp [ParseState.before]
  · simp [ParseState.before]
  · refine hrest'.imp (by simp) fun ht => ?_
    have hconcluded : Pull.Concluded ((a :: us).map .ofToken) := by
      rw [← hsplit]
      exact (brings_ofToken (u ++ [t])).concluded ht
    exact hconcluded.endsAtSentinel rfl

/-- A token that could still continue to a program does so, and there is a room in which that program
is parsed. -/
theorem exists_run_of_viable {u : List Token} {t : Token} (h : ViableInput (u ++ [t]))
    (ht : t.kind ≠ .endOfInput) (d : Nat) :
    ∃ z d' tree s, d ≤ d' ∧ (∀ a ∈ u ++ t :: z, a.kind ≠ .endOfInput) ∧
      wholeProgram d' (startOf (u ++ t :: z)) = .ok tree s := by
  obtain ⟨z, tree, htree⟩ := h.program_of_ne_end ht
  have hp : ∀ a ∈ u ++ t :: z, a.kind ≠ .endOfInput := htree.kind_ne_end
  -- the program may nest deeper than there is room for
  obtain ⟨d', hle, hroom⟩ : ∃ d', d ≤ d' ∧ ¬ Crowded d' (beforeEnd (u ++ t :: z)) :=
    ⟨max d (6 * nesting (beforeEnd (u ++ t :: z)) + 4), Nat.le_max_left .., by
      rw [not_crowded_iff]
      exact Nat.le_max_right ..⟩
  obtain ⟨s, hrun⟩ := wholeProgram_of_derives ((beforeEnd_eq_self hp).symm ▸ htree) hroom
  exact ⟨z, d', tree, s, hle, hp, hrun⟩

/-- Beside a parse of the same tokens that succeeds in more room, a parse within what both share
complains only about depth. -/
theorem FailsAlike.nestedTooDeeply {α : Type} {slack : Nat} {v v' : List Pull} {failure : Failure}
    {s s' : ParseState} {a : α}
    (h : FailsAlike (.roomy (fun _ _ => False) slack) v v' failure s (.ok a s')) :
    ∃ t, failure = Complaint.nestedTooDeeply.about t := by
  cases h with
  | reading herror => cases herror
  | depth _ hdeep => exact ⟨_, hdeep⟩
  | complaint _ herror => cases herror

/-- A parse that stands before a token which could still continue to a program does not fail there:
the program that goes on from it is read, and up to that token both parses are in lockstep. -/
theorem not_rejected_of_viable {d : Nat} {ts u rest : List Token} {t : Token} {complaint : Complaint}
    {s : ParseState} (hclosed : closeTokens ts = u ++ t :: rest) (hu : ∀ a ∈ u, a.kind ≠ .endOfInput)
    (hroom : ¬ Crowded d (beforeEnd ts)) (hahead : s.source.ahead = rest.map .ofToken)
    (hviable : ViableInput (u ++ [t])) :
    wholeProgram d (startOf ts) ≠ .error (.rejected (.unexpected complaint t t.line)) s := by
  intro hrun
  by_cases ht : t.kind = .endOfInput
  · obtain ⟨tree, htree⟩ := hviable.program_of_end hu ht
    have hbefore : beforeEnd ts = u := by
      rw [← beforeEnd_closeTokens, hclosed, beforeEnd_append hu ht]
    obtain ⟨s', hs'⟩ := wholeProgram_of_derives (hbefore.symm ▸ htree) hroom
    rw [hs'] at hrun
    cases hrun
  · obtain ⟨z, d', tree, s', hle, hp, hs'⟩ := exists_run_of_viable hviable ht d
    obtain ⟨line, hclosed'⟩ := closeTokens_concat hp
    generalize ({ kind := .endOfInput, line } : Token) = e at hclosed'
    obtain ⟨last, hskip⟩ := skip_startOf ts
    obtain ⟨last', hskip'⟩ := skip_startOf (u ++ t :: z)
    have hshallow := wholeProgram_shallow hroom t t.line s
    rw [hrun] at hshallow
    rw [hclosed] at hskip
    rw [hclosed', List.append_assoc, List.cons_append] at hskip'
    rw [wholeProgram_eq, bind_of_ok hskip] at hrun
    rw [wholeProgram_eq, bind_of_ok hskip'] at hs'
    have hrest : rest ≠ [] := by
      have hend := closeTokens_endsInput ts
      rw [hclosed] at hend
      obtain ⟨a, as, rfl⟩ := ((hend.drop hu).tail ht).exists_cons
      exact List.cons_ne_nil a as
    have htracks := Tracks.programBody (K := .roomy (fun _ _ => False) 0) ⟨hle, .inl trivial⟩
      (rest.map .ofToken) ((z ++ [e]).map .ofToken) _ _
      (abreast_before (fun _ => rfl) (u := u) (t := t) hrest (.inl (by simp)) (.ofToken last)
        (.ofToken last') rfl [] [])
    cases htracks.bad_of_error hrun with
    | beyond hbeyond =>
      have hlength := hbeyond.1
      rw [hahead] at hlength
      exact absurd hlength (Nat.lt_irrefl _)
    | next hnext =>
      obtain ⟨p, hp, hfails⟩ := hnext
      obtain ⟨a, as, rfl⟩ := List.exists_cons_of_ne_nil hrest
      cases hp
      cases hfails
    | alike halike =>
      rw [hs'] at halike
      obtain ⟨a, hdeep⟩ := halike.nestedTooDeeply
      obtain ⟨-, he⟩ := Complaint.about_eq_rejected hdeep.symm
      injection he with hcomplaint
      exact hshallow (by rw [hcomplaint])

end Parse

/-- The token at `i` is the first behind which no program can be continued. -/
def FirstMisfit (q : List Token) (i : Nat) : Prop :=
  i < q.length ∧ ViableInput (q.take i) ∧ ¬ ViableInput (q.take (i + 1))

namespace Parse

/-- Where a parse fails before room is short, the token that it rests on is the first one that does
not fit. This is for tokens that can be described: a complaint about others does not tell whether
room was short. -/
theorem misfit_of_describable {d : Nat} {ts : List Token} {failure : Failure} {s : ParseState}
    (hts : ∀ t ∈ closeTokens ts, t.IsDescribable) (hroom : ¬ Crowded d (beforeEnd ts))
    (hrun : wholeProgram d (startOf ts) = .error failure s) :
    ∃ i, i + s.source.ahead.length + 1 = (closeTokens ts).length ∧
      FirstMisfit (throughEnd (closeTokens ts)) i := by
  obtain ⟨last, hyields⟩ := wholeProgram_yields d ts
  obtain ⟨u, t, rest, complaint, hclosed, hu, -, rfl, rfl⟩ := hyields.bad_of_error hrun
  have hne : ∀ a ∈ u, a.kind ≠ .endOfInput := hu.kind_ne_end
  have ht : t.IsDescribable := hts t (by simp [hclosed])
  have hfront : u ++ [t] <+: throughEnd (closeTokens ts) := by
    have hend := closeTokens_endsInput ts
    rw [hclosed] at hend ⊢
    exact prefix_throughEnd hne hend
  obtain ⟨z, hz⟩ := hfront
  rw [List.append_assoc, List.singleton_append] at hz
  refine ⟨u.length, ?_, ?_, ?_, fun hviable => ?_⟩
  · simp [ParseState.before, hclosed]
    omega
  · rw [← hz, List.length_append, List.length_cons]
    omega
  · rw [← hz, List.take_left]
    exact hu.input
  · rw [← hz, List.take_append, List.take_of_length_le (Nat.le_succ _), Nat.add_sub_cancel_left,
      List.take_succ_cons, List.take_zero] at hviable
    rw [complaint.about_of_describable ht] at hrun
    exact not_rejected_of_viable hclosed hne hroom rfl hviable hrun

end Parse

/-! ## Tokens of the same kinds -/

section SameKinds

variable {u u' : List Token} (h : u.map Token.kind = u'.map Token.kind)

include h

theorem throughEnd_kinds : (throughEnd u).map Token.kind = (throughEnd u').map Token.kind := by
  induction u generalizing u' with
  | nil =>
    rw [List.map_eq_nil_iff.mp h.symm]
  | cons t u ih =>
    obtain ⟨t', us', rfl, ht, hu⟩ := List.map_eq_cons_iff.mp h.symm
    rw [throughEnd, throughEnd, ht]
    split
    · rw [List.map_singleton, List.map_singleton, ht]
    · rw [List.map_cons, List.map_cons, ht, ih hu.symm]

theorem beforeEnd_kinds : (beforeEnd u).map Token.kind = (beforeEnd u').map Token.kind := by
  induction u generalizing u' with
  | nil =>
    rw [List.map_eq_nil_iff.mp h.symm]
  | cons t u ih =>
    obtain ⟨t', us', rfl, ht, hu⟩ := List.map_eq_cons_iff.mp h.symm
    by_cases hend : t.kind = .endOfInput
    · rw [beforeEnd_end hend, beforeEnd_end (ht.trans hend)]
    · rw [beforeEnd_other hend, beforeEnd_other (ht ▸ hend), List.map_cons, List.map_cons, ht,
        ih hu.symm]

/-- Programs are told by the kinds of their tokens. -/
theorem DerivesProgram.of_kinds {tree : SyntaxTree} (hu : DerivesProgram u tree) :
    ∃ tree', DerivesProgram u' tree' := by
  have hbefore : ∀ {v : List Token}, v.map Token.kind = u.map Token.kind → beforeEnd v = v := by
    intro v hv
    refine beforeEnd_eq_self fun t ht => ?_
    obtain ⟨a, ha, hk⟩ := List.mem_map.mp (hv ▸ List.mem_map_of_mem ht)
    exact hk ▸ hu.kind_ne_end a ha
  have hread := hu
  rw [← hbefore rfl] at hread
  obtain ⟨s, hrun⟩ := Parse.wholeProgram_of_derives hread
    (d := 6 * nesting (beforeEnd u) + 4) (not_crowded_iff.mpr (Nat.le_refl _))
  rcases Parse.wholeProgram_by_kinds (6 * nesting (beforeEnd u) + 4) h with
    ⟨_, tree', _, s', _, hrun', -⟩ | ⟨_, _, _, _, _, hrun', -⟩
  · obtain ⟨last, hyields⟩ := Parse.wholeProgram_yields (6 * nesting (beforeEnd u) + 4) u'
    exact ⟨tree', hbefore h.symm ▸ hyields.good_of_ok hrun'⟩
  · rw [hrun] at hrun'
    cases hrun'

theorem ViableInput.of_kinds (hu : ViableInput u) : ViableInput u' := by
  obtain ⟨w, tree, e, htree, he, z, hz⟩ := hu
  have hkinds : (u' ++ z).map Token.kind = w.map Token.kind ++ [e].map Token.kind := by
    rw [List.map_append, ← h, ← List.map_append, hz, List.map_append]
  obtain ⟨w', es, hsplit, hw, hes⟩ := List.map_eq_append_iff.mp hkinds
  obtain ⟨e', rfl, he'⟩ := List.map_eq_singleton_iff.mp hes
  obtain ⟨tree', htree'⟩ := htree.of_kinds hw.symm
  exact ⟨w', tree', e', htree', he'.trans he, hsplit ▸ List.prefix_append u' z⟩

theorem FirstMisfit.of_kinds {i : Nat} (hu : FirstMisfit u i) : FirstMisfit u' i := by
  have hlength : u.length = u'.length := by simpa using congrArg List.length h
  have htake : ∀ n, (u.take n).map Token.kind = (u'.take n).map Token.kind := fun n => by
    rw [List.map_take, List.map_take, h]
  obtain ⟨hi, hviable, hmisfit⟩ := hu
  exact ⟨hlength ▸ hi, hviable.of_kinds (htake i), fun h' => hmisfit (h'.of_kinds (htake _).symm)⟩

end SameKinds

/-- The token without its value. -/
def Token.blank (t : Token) : Token := { t with value := .none }

/-- A parse that fails before room is short rests on the first token that does not fit, whether that
token can be described or not. -/
theorem Parse.rests_on_misfit {d : Nat} {ts : List Token} {failure : Failure} {s : ParseState}
    (hroom : ¬ Crowded d (beforeEnd ts)) (hrun : wholeProgram d (startOf ts) = .error failure s) :
    ∃ complaint : Complaint, ∃ i t, failure = complaint.about t ∧
      s.source.position (closeTokens ts).length = (i : Nat) ∧ s.source.current? = some t ∧
      (throughEnd (closeTokens ts))[i]? = some t ∧ FirstMisfit (throughEnd (closeTokens ts)) i := by
  obtain ⟨last, hyields⟩ := wholeProgram_yields d ts
  obtain ⟨u, t, rest, complaint, hclosed, hu, -, hfailure, rfl⟩ := hyields.bad_of_error hrun
  have hfront : u ++ [t] <+: throughEnd (closeTokens ts) := by
    have hend := closeTokens_endsInput ts
    rw [hclosed] at hend ⊢
    exact prefix_throughEnd hu.kind_ne_end hend
  -- without their values the tokens can be described, and have the same kinds
  have hkinds : (ts.map Token.blank).map Token.kind = ts.map Token.kind := by
    rw [List.map_map]
    rfl
  have hclosed_kinds := kinds_closeTokens hkinds
  have hmisfit : FirstMisfit (throughEnd (closeTokens ts)) u.length := by
    have hroom' : ¬ Crowded d (beforeEnd (ts.map Token.blank)) := by
      unfold Crowded at hroom ⊢
      rwa [nesting_kinds (beforeEnd_kinds hkinds)]
    have hdescribable : ∀ t ∈ closeTokens (ts.map Token.blank), t.IsDescribable := by
      intro t ht
      rcases mem_closeTokens ht with ht | ht
      · obtain ⟨a, -, rfl⟩ := List.mem_map.mp ht
        exact .inr trivial
      · exact .inl ht
    rcases wholeProgram_by_kinds d hkinds with
      ⟨_, _, _, _, _, hrun', -⟩ | ⟨_, _, _, s₀, s', hrun₀, hrun', -, hahead⟩
    · rw [hrun] at hrun'
      cases hrun'
    · rw [hrun] at hrun'
      injection hrun' with _ hs
      obtain ⟨i, hi, hmisfit⟩ := misfit_of_describable hdescribable hroom' hrun₀
      have hlength : (closeTokens (ts.map Token.blank)).length = (closeTokens ts).length := by
        simpa using congrArg List.length hclosed_kinds
      have hrest : s'.source.ahead.length = rest.length := by
        rw [← hs]
        simp [ParseState.before]
      rw [hlength, hclosed, List.length_append, List.length_cons] at hi
      obtain rfl : i = u.length := by omega
      exact hmisfit.of_kinds (throughEnd_kinds hclosed_kinds)
  obtain ⟨z, hz⟩ := hfront
  refine ⟨complaint, u.length, t, hfailure, ?_, rfl, ?_, hmisfit⟩
  · simp [TokenSource.position, ParseState.before, hclosed]
    omega
  · rw [← hz, List.append_assoc, List.getElem?_append_right (Nat.le_refl _), Nat.sub_self]
    rfl

/-- A parse of a list whose parentheses nest no deeper than guaranteed fails only on the first token
behind which no program can be continued, and rests on it. The error is about that token, unless the
token cannot be reported. Without such a token there is a tree. -/
theorem parseTokens_rests_on_misfit {room : Nat} (hroom : guaranteedRoom ≤ room) (ts : List Token)
    (hnesting : nesting (throughEnd (closeTokens ts)) ≤ guaranteedNesting) :
    (∀ failure, (parseTokens room ts).outcome = .error failure →
      ∃ f s i t, Parse.wholeProgram (factorRoom room) (Parse.startOf ts) = .error f s ∧
        s.source.position (closeTokens ts).length = (i : Nat) ∧
        s.source.current? = some t ∧ (throughEnd (closeTokens ts))[i]? = some t ∧
        FirstMisfit (throughEnd (closeTokens ts)) i ∧
        (t.IsReportable → ∃ e, failure = .rejected e ∧ e.token? = some t ∧ e.line = t.line) ∧
        (¬ t.IsReportable → failure = .integerUnwritable)) ∧
    ((¬ ∃ i, FirstMisfit (throughEnd (closeTokens ts)) i) →
      ∃ tree, (parseTokens room ts).outcome = .ok tree) := by
  have hguaranteed : ¬ Crowded (factorRoom room) (beforeEnd ts) := by
    rw [← beforeEnd_closeTokens]
    exact not_crowded_of_guaranteed
      (Nat.le_trans (nesting_mono (beforeEnd_prefix_throughEnd _)) hnesting) hroom
  cases hrun : Parse.wholeProgram (factorRoom room) (Parse.startOf ts) with
  | ok tree s =>
    have houtcome := parseTokens_of_ok hrun
    refine ⟨fun failure hfailure => ?_, fun _ => ⟨tree, houtcome⟩⟩
    rw [houtcome] at hfailure
    cases hfailure
  | error f s =>
    have houtcome := parseTokens_of_error hrun
    obtain ⟨complaint, i, t, rfl, hposition, hcurrent, ht, hmisfit⟩ :=
      Parse.rests_on_misfit hguaranteed hrun
    refine ⟨fun failure hfailure => ?_, fun hnone => absurd ⟨i, hmisfit⟩ hnone⟩
    rw [houtcome] at hfailure
    injection hfailure with hfailure
    subst hfailure
    obtain ⟨hreported, hunwritable⟩ := complaint.about_written t
    exact ⟨_, s, i, t, rfl, hposition, hcurrent, ht, hmisfit,
      fun h => ⟨_, hreported h, rfl, rfl⟩, hunwritable⟩

/-- The tokens of `x +` and, on a second line, of `* y;`. -/
def misfitTokens : List Token :=
  [⟨.ident, .text "x", 1, 1⟩, ⟨.plus, .text "+", 1, 3⟩, ⟨.times, .text "*", 2, 1⟩,
    ⟨.ident, .text "y", 2, 3⟩, ⟨.semicolon, .text ";", 2, 4⟩]

set_option maxRecDepth 100000 in
/-- The second operator is where no program can go on. -/
theorem misfitTokens_rejected :
    guaranteedRoom ≤ 700 ∧ nesting (throughEnd (closeTokens misfitTokens)) ≤ guaranteedNesting ∧
      (∃ e, (parseTokens 700 misfitTokens).outcome = .error (.rejected e) ∧
        e.token? = some ⟨.times, .text "*", 2, 1⟩) ∧
      ∃ i, FirstMisfit (throughEnd (closeTokens misfitTokens)) i := by
  have hroom : guaranteedRoom ≤ 700 := by decide
  have hnesting : nesting (throughEnd (closeTokens misfitTokens)) ≤ guaranteedNesting := by decide
  have hfailure : (parseTokens 700 misfitTokens).outcome = .error (.rejected
      (.unexpected (.expected .value) ⟨.times, .text "*", 2, 1⟩ 2)) := by cbv
  obtain ⟨hfails, -⟩ := parseTokens_rests_on_misfit hroom misfitTokens hnesting
  obtain ⟨_, _, i, _, _, _, _, _, hmisfit, -, -⟩ := hfails _ hfailure
  exact ⟨hroom, hnesting, ⟨_, hfailure, rfl⟩, i, hmisfit⟩

end MflFrontend
