import MflFrontend.Proofs.Grammar.CorrectPrefix

/-!
# One token ahead

A reader that stands on a token takes the longest phrase in front of it, or finds a token that does
not fit. Either way it comes to rest on the first token that it did not take, and has not asked for
the one behind. So what stands behind makes no difference: with other tokens there, the reader comes
to the same in the same place.

The second statement is the lockstep of two parses up to where the first one rests, and the longest
phrase follows from it: behind a longer one the reader would go on to its end, and so it would have
gone on here.
-/

namespace MflFrontend

/-- What there is a reader for. -/
inductive Construct where
  /-- A program. -/
  | program
  /-- A phrase of a sort. -/
  | phrase (p : Phrase)

namespace Construct

/-- The tokens are of the construct, and the node is their tree. -/
def Derives : Construct → List Token → Node → Prop
  | program, w, n => DerivesProgram w ⟨n⟩
  | phrase p, w, n => MflFrontend.Derives p w n

/-- The reader of a construct, where the factors on the right of comparisons have the room `d`. -/
def reader (d : Nat) : Construct → Parse Node
  | program => Parse.program d
  | phrase .statement => Parse.statement d
  | phrase (.tier .connectives) => Parse.expression d
  | phrase .comparison => Parse.comparisonOf d (Parse.factor (d + 1)) (Parse.factor d)
  | phrase (.tier .sums) => Parse.sum d
  | phrase (.tier .products) => Parse.product d
  | phrase .negation => Parse.negation d
  | phrase .factor => Parse.factor d

theorem Derives.kind_ne_end {k : Construct} {w : List Token} {n : Node} (h : k.Derives w n) :
    ∀ t ∈ w, t.kind ≠ .endOfInput := by
  cases k with
  | program => exact DerivesProgram.kind_ne_end h
  | phrase p => exact MflFrontend.Derives.kind_ne_end h

theorem Derives.ne_nil {k : Construct} {w : List Token} {n : Node} (h : k.Derives w n) : w ≠ [] := by
  rintro rfl
  cases k with
  | program =>
    obtain ⟨first, _, hfirst, -⟩ := h
    cases hfirst
  | phrase p =>
    obtain ⟨t, ts, hnil, -⟩ := MflFrontend.Derives.head h
    cases hnil

end Construct

namespace Parse

/-! ## What readers come to -/

theorem reads_reader (d : Nat) (p : Phrase) : Reads d p ((Construct.phrase p).reader d) := by
  have hnegation : Reads (d + 1) .negation (negation d) := reads_negationOf (reads_factor (d + 1))
  have hproduct : Reads (d + 1) .product (product d) := reads_tier (t := .products) hnegation
  have hsum : Reads (d + 1) .sum (sum d) := reads_tier (t := .sums) hproduct
  match p with
  | .statement => exact reads_statement d
  | .tier .connectives => exact reads_expression d
  | .tier .sums => exact hsum.weaken (Nat.le_succ d)
  | .tier .products => exact hproduct.weaken (Nat.le_succ d)
  | .comparison => exact reads_comparisonOf (reads_factor (d + 1)) (reads_factor d)
  | .negation => exact hnegation.weaken (Nat.le_succ d)
  | .factor => exact reads_factor d

/-- A reader gives a node before the tokens `us`, or a failure there, of which it leaves a record. -/
def restsBefore (final : Pull) (log : List LogRecord) (us : List Token) :
    Except Failure Node → EStateM.Result Failure ParseState Node
  | .ok n => .ok n (.before final log us)
  | .error f => .error f (.before final (log ++ f.records) us)

theorem restsBefore_inj {final : Pull} {log : List LogRecord} {t t' : Token} {us us' : List Token}
    {o o' : Except Failure Node}
    (h : restsBefore final log (t :: us) o = restsBefore final log (t' :: us') o') :
    o = o' ∧ us.length = us'.length := by
  have hlength : ∀ {log log' : List LogRecord},
      ParseState.before final log (t :: us) = .before final log' (t' :: us') →
        us.length = us'.length := by
    intro log log' hs
    simpa [ParseState.before] using congrArg (fun s => s.source.ahead.length) hs
  cases o with
  | ok n =>
    cases o' with
    | ok n' =>
      injection h with hn hs
      exact ⟨by rw [hn], hlength hs⟩
    | error e' => cases h
  | error f =>
    cases o' with
    | ok n' => cases h
    | error f' =>
      injection h with hf hs
      exact ⟨by rw [hf], hlength hs⟩

end Parse

namespace Construct

open Parse

variable (k : Construct) (d : Nat)

/-- A reader comes to rest before a token, behind tokens that are of the construct if it gives a node,
and its failure is a complaint about that token. -/
theorem reader_rests {ts : List Token} (hts : EndsInput ts) (final : Pull) (log : List LogRecord) :
    ∃ w t rest o, ts = w ++ t :: rest ∧ (∀ a ∈ w, a.kind ≠ .endOfInput) ∧
      k.reader d (.before final log ts) = restsBefore final log (t :: rest) o ∧
      (∀ n, o = .ok n → k.Derives w n) ∧
      ∀ f, o = .error f → ∃ complaint : Complaint, f = complaint.about t := by
  have hyields : (k.reader d).Yields (.before final log ts)
      (fun n s => ∃ w rest, ts = w ++ rest ∧ k.Derives w n ∧ s = .before final log rest)
      (Rejected d (fun u => ∀ a ∈ u, a.kind ≠ .endOfInput) final log ts) := by
    cases k with
    | program =>
      obtain ⟨first, us, rfl⟩ := hts.exists_cons
      refine Yields.step (currentLine_before ..) ?_
      refine Yields.bind (programStatements_yields d hts)
        (fun _ _ h => h.weaken fun _ => ViableProgram.kind_ne_end) ?_
      rintro ns _ ⟨v, e, rest, hsplit, hns, hv, -, rfl⟩
      obtain ⟨t, v, rfl⟩ := List.exists_cons_of_ne_nil (hv.ne_nil hns)
      have hfirst := List.head_eq_of_cons_eq hsplit
      exact Yields.of_ok rfl ⟨_, e :: rest, hsplit, ⟨t, ns, rfl, hns, hv, by rw [hfirst]⟩, rfl⟩
    | phrase p =>
      refine (reads_reader d p final log ts hts).mono ?_ fun _ _ h => h.weaken ?_
      · rintro n _ ⟨w, rest, hsplit, hw, rfl⟩
        exact ⟨w, rest, hsplit, hw, rfl⟩
      · rintro u ⟨v, n, hv⟩ a ha
        exact hv.kind_ne_end a (List.mem_append_left v ha)
  cases hrun : k.reader d (.before final log ts) with
  | ok n s =>
    obtain ⟨w, rest, rfl, hw, rfl⟩ := hyields.good_of_ok hrun
    obtain ⟨t, rest, rfl⟩ := (hts.drop hw.kind_ne_end).exists_cons
    refine ⟨w, t, rest, .ok n, rfl, hw.kind_ne_end, rfl, fun n' hn => ?_, fun f hf => ?_⟩
    · injection hn with hn
      exact hn ▸ hw
    · cases hf
  | error failure s =>
    obtain ⟨u, t, rest, complaint, rfl, hu, -, rfl, rfl⟩ := hyields.bad_of_error hrun
    refine ⟨u, t, rest, .error (complaint.about t), rfl, hu, rfl, fun n hn => ?_, fun f hf => ?_⟩
    · cases hn
    · injection hf with hf
      exact ⟨complaint, hf.symm⟩

/-- Before a sentinel, the reader takes all that is of the construct. -/
theorem reader_of_derives {w : List Token} {n : Node} (h : k.Derives w n) (hd : ¬ Crowded d w)
    {e : Token} (he : e.kind = .endOfInput) (final : Pull) (log : List LogRecord)
    (rest : List Token) :
    k.reader d (.before final log (w ++ e :: rest)) = .ok n (.before final log (e :: rest)) := by
  cases k with
  | program =>
    obtain ⟨first, ns, hfirst, hns, hall, htree⟩ := h
    injection htree with hn
    obtain ⟨us, rfl⟩ := List.head?_eq_some_iff.mp hfirst
    have hline : currentLine (.before final log (first :: us ++ e :: rest)) =
        .ok first.line (.before final log (first :: us ++ e :: rest)) := rfl
    rw [reader, Parse.program, bind_of_ok hline,
      bind_of_ok (programStatements_of_derives hall hns hd final log he rest), hn]
    rfl
  | phrase p =>
    have hstop : ∀ q : Phrase, Stops q (e :: rest) := by
      refine fun q => ⟨e, rest, rfl, ?_⟩
      rw [he]
      match q with
      | .statement | .tier .connectives | .tier .sums | .tier .products | .comparison | .negation
      | .factor => decide
    have hread := (MflFrontend.Derives.isRead h).1
    have hend : EndsInput (e :: rest) := ⟨e, List.mem_cons_self, he⟩
    have hd' : ¬ Crowded (d + 1) w := fun h => hd (Nat.lt_of_succ_lt h)
    -- the readers below comparisons have a frame more
    match p with
    | .statement | .tier .connectives | .comparison | .factor =>
      exact hread d final log (e :: rest) hd hend (hstop _)
    | .tier .sums | .tier .products | .negation =>
      exact hread (d + 1) final log (e :: rest) hd' hend (hstop _)

/-- Parses of the same tokens with the same room. -/
def sameParse : Pairing := .strict Eq (congrArg Token.kind) fun _ _ => False

/-- Readers of one construct go in lockstep. -/
theorem reader_tracks : Tracks sameParse Eq (k.reader d) (k.reader d) := by
  have hd : sameParse.Rooms d d := Pairing.strict_rooms d
  have hfactor : ∀ room, Tracks sameParse (Node.RelatedBy Eq) (factor room) (factor room) :=
    fun room => Tracks.factor (Pairing.strict_rooms room)
  cases k with
  | program =>
    refine Tracks.currentLine.bind fun l l' hl => ?_
    refine (Tracks.programStatements hd).bind fun ns ns' hns => Tracks.pure ?_
    have htree : SyntaxTree.RelatedBy Eq ⟨.program l ns⟩ ⟨.program l' ns'⟩ :=
      ⟨l, l', ns, ns', rfl, rfl, hl, hns⟩
    exact congrArg SyntaxTree.root (htree.eq id)
  | phrase p =>
    refine Tracks.mono (Q := Node.RelatedBy Eq) ?_ fun _ _ => Node.RelatedBy.eq id
    match p with
    | .statement => exact Tracks.statement hd
    | .tier .connectives => exact Tracks.expression hd
    | .comparison =>
      exact (Tracks.sumOf (hd.add 1) (hfactor (d + 1))).bind fun _ _ hleft =>
        Tracks.comparisonFrom hd (hfactor d) hleft
    | .tier .sums => exact Tracks.sumOf (hd.add 1) (hfactor (d + 1))
    | .tier .products => exact Tracks.productOf (hd.add 1) (hfactor (d + 1))
    | .negation => exact Tracks.negationOf (hd.add 1) (hfactor (d + 1))
    | .factor => exact hfactor d

/-! ## What stands behind -/

variable {k d} {w rest rest' : List Token} {t : Token} {final final' : Pull} {log : List LogRecord}
  {o : Except Failure Node}

/-- With other tokens behind the one that it rests on, a reader comes to the same there. This is if
there are tokens behind it at all, and if others take their place or the reader rests on a
sentinel. -/
theorem reader_replace (hrest : rest ≠ []) (hrest' : rest' ≠ [] ∨ t.kind = .endOfInput)
    (hframes : final'.frames = 3) (hend' : EndsInput (w ++ t :: rest'))
    (hrun : k.reader d (.before final log (w ++ t :: rest)) = restsBefore final log (t :: rest) o) :
    k.reader d (.before final' log (w ++ t :: rest')) = restsBefore final' log (t :: rest') o := by
  obtain ⟨w₂, t₂, rest₂, o₂, hsplit, -, hrun', -, -⟩ := k.reader_rests d hend' final' log
  have htracks := k.reader_tracks d _ _ _ _
    (abreast_before (fun _ => rfl) (u := w) (t := t) hrest hrest' final _ hframes log log)
  have hbrings : ∀ p, (rest.map Pull.ofToken).head? = some p → ∃ u, p.outcome = .ok u := by
    intro p hp
    obtain ⟨a, as, rfl⟩ := List.exists_cons_of_ne_nil hrest
    injection hp with hp
    exact ⟨a, hp ▸ rfl⟩
  have hwithin : (k.reader d).Yields (.before final log (w ++ t :: rest))
      (fun _ s => (rest.map Pull.ofToken).length ≤ s.source.ahead.length)
      fun _ s => (rest.map Pull.ofToken).length ≤ s.source.ahead.length := by
    cases o with
    | ok n => exact Yields.of_ok hrun (Nat.le_refl _)
    | error e => exact Yields.of_error hrun (Nat.le_refl _)
  have hsame : o₂ = o ∧ rest₂.length = rest'.length := by
    have hlength : ∀ {log₁ log₂ : List LogRecord},
        Abreast sameParse (rest.map .ofToken) (rest'.map .ofToken) (.before final log₁ (t :: rest))
          (.before final' log₂ (t₂ :: rest₂)) → rest₂.length = rest'.length := by
      intro log₁ log₂ habreast
      have hahead := habreast.length.1
      simp only [ParseState.before, List.tail_cons, List.length_map] at hahead
      omega
    rcases htracks.within hbrings hwithin with
      ⟨n, _, s₁, s₁', hm, hm', rfl, habreast⟩ | ⟨failure, s₁, hm, halike⟩
    · rw [hrun] at hm
      rw [hrun'] at hm'
      cases o <;> cases o₂ <;> cases hm <;> cases hm'
      exact ⟨rfl, hlength habreast⟩
    · cases halike with
      | reading _ hfailure => exact hfailure.elim
      | depth hroomier => exact hroomier.elim
      | @complaint c u u' s₁' hf hm' hu habreast =>
        obtain rfl : u = u' := hu
        rw [hrun, hf] at hm
        rw [hrun'] at hm'
        cases o <;> cases o₂ <;> cases hm <;> cases hm'
        exact ⟨rfl, hlength habreast⟩
  obtain ⟨rfl, hlength⟩ := hsame
  obtain ⟨-, htail⟩ := List.append_inj' hsplit (by rw [List.length_cons, List.length_cons, hlength])
  rw [hrun', htail]

/-- Of two splits of a list, one before a sentinel and one behind tokens that are none, the second
comes no later. -/
theorem split_before_end {w w₂ rest rest₂ : List Token} {t t₂ : Token} (ht : t.kind = .endOfInput)
    (hw₂ : ∀ a ∈ w₂, a.kind ≠ .endOfInput) (h : w ++ t :: rest = w₂ ++ t₂ :: rest₂) :
    ∃ z, w = w₂ ++ z ∧ t₂ :: rest₂ = z ++ t :: rest := by
  rcases List.append_eq_append_iff.mp h with ⟨z, hwz, hz⟩ | ⟨z, hwz, hz⟩
  · cases z with
    | nil => exact ⟨[], by rw [hwz, List.append_nil, List.append_nil], hz.symm⟩
    | cons a z =>
      injection hz with hta
      exact absurd ht (hw₂ t (by rw [hwz, hta]; simp))
  · exact ⟨z, hwz, hz⟩

/-- With any other tokens behind the one that it rests on, a reader comes to the same there. -/
theorem reader_unseen (hw : ∀ a ∈ w, a.kind ≠ .endOfInput) (hframes : final.frames = 3)
    (hframes' : final'.frames = 3) (hend : EndsInput (w ++ t :: rest))
    (hend' : EndsInput (w ++ t :: rest')) (hfinal : rest = [] → rest' = [] → final = final')
    (hrun : k.reader d (.before final log (w ++ t :: rest)) = restsBefore final log (t :: rest) o) :
    k.reader d (.before final' log (w ++ t :: rest')) = restsBefore final' log (t :: rest') o := by
  have hlast : ∀ {us : List Token}, us = [] → EndsInput (w ++ t :: us) → t.kind = .endOfInput := by
    rintro _ rfl h
    obtain ⟨e, he, hk⟩ := h.drop hw
    exact List.mem_singleton.mp he ▸ hk
  by_cases hrest : rest = []
  · have ht : t.kind = .endOfInput := hlast hrest hend
    subst hrest
    by_cases hrest' : rest' = []
    · subst hrest'
      exact hfinal rfl rfl ▸ hrun
    · -- the reader of the second list rests no further behind, and there both come to the same
      obtain ⟨w₂, t₂, rest₂, o₂, hsplit, hw₂, hrun', -, -⟩ := k.reader_rests d hend' final' log
      obtain ⟨z, hwz, hz⟩ := split_before_end ht hw₂ hsplit
      cases z with
      | nil =>
        injection hz with ht₂ hrest₂
        subst ht₂ hrest₂
        rw [List.append_nil] at hwz
        subst hwz
        have hback : k.reader d (.before final log (w ++ [t₂])) = restsBefore final log [t₂] o₂ :=
          reader_replace hrest' (.inr ht) hframes hend hrun'
        rw [hrun] at hback
        rw [hrun', (restsBefore_inj hback).1]
      | cons a z =>
        injection hz with ht₂ hrest₂
        subst ht₂ hrest₂ hwz
        simp only [List.append_assoc, List.cons_append] at hrun hrun' hend
        have hback : k.reader d (.before final log (w₂ ++ t₂ :: (z ++ [t]))) =
            restsBefore final log (t₂ :: (z ++ [t])) o₂ :=
          reader_replace (by simp) (.inl (by simp)) hframes hend hrun'
        rw [hrun] at hback
        exact absurd (restsBefore_inj hback).2 (by simp)
  · refine reader_replace hrest ?_ hframes' hend' hrun
    by_cases hrest' : rest' = []
    · exact .inr (hlast hrest' hend')
    · exact .inl hrest'

/-! ## The longest phrase -/

/-- The first `m` of the tokens are of the construct, no more of them are, and the node is their only
tree. -/
structure Longest (k : Construct) (us : List Token) (m : Nat) (n : Node) : Prop where
  /-- They are of the construct, and the node is their tree. -/
  derives : k.Derives (us.take m) n
  /-- No longer front part is of the construct. -/
  length_le : ∀ m' n', m' ≤ us.length → k.Derives (us.take m') n' → m' ≤ m
  /-- They have no other tree. -/
  unique : ∀ n', k.Derives (us.take m) n' → n' = n

/-- Tokens of a construct have one tree. -/
theorem Derives.unique {n n' : Node} (h : k.Derives w n) (h' : k.Derives w n') : n = n' := by
  let e : Token := { kind := .endOfInput }
  have hroom : ¬ Crowded (6 * nesting w + 4) w := not_crowded_iff.mpr (Nat.le_refl _)
  have hread := k.reader_of_derives _ h hroom (e := e) rfl (.ofToken e) [] []
  rw [k.reader_of_derives _ h' hroom rfl] at hread
  injection hread with hn
  exact hn.symm

/-- No longer front part is of the construct than what a reader took. -/
theorem length_le_of_reader {n n' : Node} {w' : List Token} (hframes : final.frames = 3)
    (hend : EndsInput (w ++ t :: rest))
    (hrun : k.reader d (.before final log (w ++ t :: rest)) = .ok n (.before final log (t :: rest)))
    (h : k.Derives w' n') (hfront : w' <+: w ++ t :: rest) (hd : ¬ Crowded d w') :
    w'.length ≤ w.length := by
  by_contra hlonger
  obtain ⟨y, rfl⟩ : w <+: w' :=
    List.prefix_of_prefix_length_le (List.prefix_append w _) hfront (by omega)
  cases y with
  | nil => exact hlonger (by simp)
  | cons a z =>
    obtain ⟨more, hmore⟩ := hfront
    rw [List.append_assoc, List.cons_append] at hmore
    obtain ⟨hta, hrest⟩ := List.cons.inj (List.append_cancel_left hmore)
    obtain rfl : t = a := hta.symm
    subst hrest
    -- the longer part alone, with a sentinel behind it, is read to its end
    let e : Token := { kind := .endOfInput }
    have hwhole := k.reader_of_derives d h hd (e := e) rfl final log []
    have hmore_ne : more ≠ [] := by
      have hmore_end := hend
      rw [← List.cons_append, ← List.append_assoc] at hmore_end
      obtain ⟨b, bs, rfl⟩ := (hmore_end.drop h.kind_ne_end).exists_cons
      exact List.cons_ne_nil b bs
    have hend' : EndsInput (w ++ t :: (z ++ [e])) := ⟨e, by simp, rfl⟩
    have hstops : k.reader d (.before final log (w ++ t :: (z ++ [e]))) =
        restsBefore final log (t :: (z ++ [e])) (.ok n) :=
      reader_replace (by simp [hmore_ne]) (.inl (by simp)) hframes hend' hrun
    rw [List.append_assoc, List.cons_append] at hwhole
    have htwice : restsBefore final log [e] (.ok n') =
        restsBefore final log (t :: (z ++ [e])) (.ok n) := hwhole.symm.trans hstops
    exact absurd (restsBefore_inj htwice).2 (by simp)

end Construct

/-- A front part without a sentinel stands before the first one. -/
theorem prefix_beforeEnd {w us : List Token} (h : w <+: us) (hw : ∀ t ∈ w, t.kind ≠ .endOfInput) :
    w <+: beforeEnd us := by
  obtain ⟨more, rfl⟩ := h
  unfold beforeEnd
  rw [List.takeWhile_append_of_pos fun t ht => by simpa using hw t ht]
  exact List.prefix_append w _

/-! ## Cursors in a list -/

/-- A parse of a list of tokens with its cursor on the token at an index: that one was asked for, and
all before it. -/
def cursorOn (ts : List Token) (i : Nat) (log : List LogRecord) : ParseState where
  source := (fun source : TokenSource => source.next.2)^[i + 1] (.ofTokens ts)
  log

/-- A node with the cursor on the token at an index, or a failure there, of which a record was
left. -/
def comesTo (ts : List Token) (i : Nat) (log : List LogRecord) :
    Except Failure Node → EStateM.Result Failure ParseState Node
  | .ok n => .ok n (cursorOn ts i log)
  | .error f => .error f (cursorOn ts i (log ++ f.records))

/-- From every token of a closed list on there is a sentinel. -/
theorem endsInput_drop {ts : List Token} {i : Nat} (hi : i < (closeTokens ts).length) :
    EndsInput ((closeTokens ts).drop i) := by
  obtain ⟨us, e, hclosed, he⟩ := closeTokens_last ts
  rw [hclosed, List.length_append, List.length_singleton] at hi
  refine ⟨e, ?_, he⟩
  rw [hclosed, List.drop_append_of_le_length (by omega)]
  exact List.mem_append_right _ (List.mem_singleton_self e)

theorem cursorOn_eq {ts : List Token} {i : Nat} (hi : i < (closeTokens ts).length)
    (log : List LogRecord) :
    cursorOn ts i log = .before (TokenSource.ofTokens ts).final log ((closeTokens ts).drop i) := by
  suffices hsource : (fun source : TokenSource => source.next.2)^[i + 1] (.ofTokens ts) =
      (ParseState.before (TokenSource.ofTokens ts).final log ((closeTokens ts).drop i)).source by
    unfold cursorOn
    rw [hsource]
    rfl
  induction i with
  | zero =>
    obtain ⟨t, us, hclosed⟩ := List.exists_cons_of_length_pos hi
    unfold TokenSource.ofTokens TokenSource.ofPulls
    simp only [hclosed]
    rfl
  | succ i ih =>
    have hdrop := List.drop_eq_getElem_cons hi
    rw [Function.iterate_succ_apply', ih (Nat.lt_of_succ_lt hi),
      List.drop_eq_getElem_cons (Nat.lt_of_succ_lt hi), hdrop]
    rfl

theorem comesTo_eq {ts : List Token} {i : Nat} (hi : i < (closeTokens ts).length)
    (log : List LogRecord) (o : Except Failure Node) :
    comesTo ts i log o =
      Parse.restsBefore (TokenSource.ofTokens ts).final log ((closeTokens ts).drop i) o := by
  cases o with
  | ok n => rw [comesTo, cursorOn_eq hi, Parse.restsBefore]
  | error f => rw [comesTo, cursorOn_eq hi, Parse.restsBefore]

/-- A run comes to one outcome in one place. -/
theorem comesTo_inj {ts : List Token} {i j : Nat} (hi : i < (closeTokens ts).length)
    (hj : j < (closeTokens ts).length) {log : List LogRecord} {o o' : Except Failure Node}
    (h : comesTo ts i log o = comesTo ts j log o') : i = j ∧ o = o' := by
  rw [comesTo_eq hi, comesTo_eq hj, List.drop_eq_getElem_cons hi, List.drop_eq_getElem_cons hj] at h
  obtain ⟨ho, hlength⟩ := Parse.restsBefore_inj h
  rw [List.length_drop, List.length_drop] at hlength
  exact ⟨by omega, ho⟩

/-- A list that agrees with another one up to a token goes on with that token. -/
theorem exists_rest_of_take {front rest us : List Token} {t : Token}
    (h : us.take (front.length + 1) = (front ++ t :: rest).take (front.length + 1)) :
    ∃ rest', us = front ++ t :: rest' := by
  have hfront : (front ++ t :: rest).take (front.length + 1) = front ++ [t] := by
    rw [List.append_cons, List.take_left' (by simp)]
  refine ⟨us.drop (front.length + 1), ?_⟩
  conv_lhs => rw [← List.take_append_drop (front.length + 1) us, h, hfront]
  rw [List.append_assoc, List.singleton_append]

/-- The pull that comes again and again behind a list takes what the others take. -/
theorem final_frames (ts : List Token) : (TokenSource.ofTokens ts).final.frames = 3 := by
  obtain ⟨us, e, hclosed, -⟩ := closeTokens_last ts
  unfold TokenSource.ofTokens TokenSource.ofPulls
  simp only [hclosed, List.map_append, List.map_singleton, List.getLastD_concat]
  rfl

/-- In every list with the same tokens up to the one that it rests on, a reader comes to the same. -/
theorem Construct.reader_cursorOn {k : Construct} {d : Nat} {ts ts' front w rest rest' : List Token}
    {t : Token} {log : List LogRecord} {o : Except Failure Node}
    (hclosed : closeTokens ts = front ++ (w ++ t :: rest))
    (hclosed' : closeTokens ts' = front ++ (w ++ t :: rest')) (hw : ∀ a ∈ w, a.kind ≠ .endOfInput)
    (hrun : k.reader d (.before (TokenSource.ofTokens ts).final log (w ++ t :: rest)) =
      Parse.restsBefore (TokenSource.ofTokens ts).final log (t :: rest) o) :
    k.reader d (cursorOn ts' front.length log) =
      comesTo ts' (front.length + w.length) log o := by
  have hbehind : ∀ {us : List Token} {more : List Token}, closeTokens us = front ++ (w ++ t :: more) →
      (closeTokens us).drop front.length = w ++ t :: more ∧
        front.length + w.length < (closeTokens us).length := by
    intro us more hus
    rw [hus, List.drop_left, List.length_append, List.length_append, List.length_cons]
    exact ⟨rfl, by omega⟩
  obtain ⟨hhere, hlength⟩ := hbehind hclosed
  obtain ⟨hhere', hlength'⟩ := hbehind hclosed'
  have hend := endsInput_drop (Nat.lt_of_le_of_lt (Nat.le_add_right _ w.length) hlength)
  have hend' := endsInput_drop (Nat.lt_of_le_of_lt (Nat.le_add_right _ w.length) hlength')
  rw [hhere] at hend
  rw [hhere'] at hend'
  rw [cursorOn_eq (by omega), comesTo_eq hlength', ← List.drop_drop, hhere', List.drop_left]
  refine Construct.reader_unseen hw (final_frames ts) (final_frames ts') hend hend'
    (fun hnil hnil' => ?_) hrun
  -- with nothing behind the token the lists are the same, and so is what repeats behind them
  have hsame : closeTokens ts' = closeTokens ts := by rw [hclosed', hclosed, hnil, hnil']
  unfold TokenSource.ofTokens
  rw [hsame]

/-- From any token of a list, a reader whose factors have the room that they have at least in a parse
comes to rest on a token of it. If it gives a node, it took the longest front part that is of its
construct, and there is one. If it fails, the error is about the token it rests on, unless that token
cannot be reported. With any other tokens behind the one that it rests on, it comes to the same
there. -/
theorem Construct.reads_with_lookahead (k : Construct) {d : Nat}
    (hd : factorRoom guaranteedRoom ≤ d) (ts : List Token) (i : Nat) (log : List LogRecord)
    (hi : i < (closeTokens ts).length)
    (hnesting : nesting (beforeEnd ((closeTokens ts).drop i)) ≤ guaranteedNesting) :
    ∃ j o, i ≤ j ∧ j < (closeTokens ts).length ∧
      k.reader d (cursorOn ts i log) = comesTo ts j log o ∧
      (∀ n, o = .ok n → i < j ∧ k.Longest ((closeTokens ts).drop i) (j - i) n) ∧
      (∀ f, o = .error f → ∃ t, (closeTokens ts)[j]? = some t ∧
        (t.IsReportable → ∃ e, f.written = .rejected e ∧ e.token? = some t ∧ e.line = t.line) ∧
        (¬ t.IsReportable → f.written = .integerUnwritable)) ∧
      ∀ ts', (closeTokens ts').take (j + 1) = (closeTokens ts).take (j + 1) →
        k.reader d (cursorOn ts' i log) = comesTo ts' j log o := by
  have hend := endsInput_drop hi
  obtain ⟨front, hfront, hdrop⟩ : ∃ front, front.length = i ∧
      closeTokens ts = front ++ (closeTokens ts).drop i :=
    ⟨(closeTokens ts).take i, by rw [List.length_take]; omega, (List.take_append_drop i _).symm⟩
  generalize (closeTokens ts).drop i = us at hend hnesting hdrop ⊢
  obtain ⟨w, t, rest, o, rfl, hw, hrun, hok, herror⟩ :=
    k.reader_rests d hend (TokenSource.ofTokens ts).final log
  subst hfront
  refine ⟨front.length + w.length, o, Nat.le_add_right _ _, ?_,
    Construct.reader_cursorOn hdrop hdrop hw hrun, fun n hn => ?_, fun f hf => ?_,
    fun ts' htake => ?_⟩
  · rw [hdrop, List.length_append, List.length_append, List.length_cons]
    omega
  · subst hn
    have hderives := hok n rfl
    have hpos := List.length_pos_of_ne_nil hderives.ne_nil
    refine ⟨by omega, ?_⟩
    rw [Nat.add_sub_cancel_left]
    refine ⟨by rwa [List.take_left], fun m n' hm h => ?_, fun n' h => ?_⟩
    · have hnested : nesting ((w ++ t :: rest).take m) ≤ guaranteedNesting :=
        Nat.le_trans (nesting_mono (prefix_beforeEnd (List.take_prefix m _) h.kind_ne_end)) hnesting
      have hroom : ¬ Crowded d ((w ++ t :: rest).take m) := fun hcrowded =>
        not_crowded_of_guaranteed hnested (Nat.le_refl _) (Nat.lt_of_le_of_lt hd hcrowded)
      have hle := Construct.length_le_of_reader (final_frames ts) hend hrun h (List.take_prefix m _)
        hroom
      rwa [List.length_take, Nat.min_eq_left hm] at hle
    · rw [List.take_left] at h
      exact h.unique hderives
  · obtain ⟨complaint, rfl⟩ := herror f hf
    obtain ⟨hreported, hunwritable⟩ := complaint.about_written t
    refine ⟨t, ?_, fun h => ⟨_, hreported h, rfl, rfl⟩, hunwritable⟩
    rw [hdrop, ← List.append_assoc, List.getElem?_append_right (by simp)]
    simp
  · rw [hdrop, ← List.append_assoc, ← List.length_append] at htake
    obtain ⟨rest', hclosed'⟩ := exists_rest_of_take htake
    rw [List.append_assoc] at hclosed'
    exact Construct.reader_cursorOn hdrop hclosed' hw hrun

/-- The tokens of `a < b < c;`. -/
def comparedTokens : List Token :=
  [⟨.ident, .text "a", 1, 1⟩, ⟨.less, .text "<", 1, 3⟩, ⟨.ident, .text "b", 1, 5⟩,
    ⟨.less, .text "<", 1, 7⟩, ⟨.ident, .text "c", 1, 9⟩, ⟨.semicolon, .text ";", 1, 10⟩]

/-- The tree of the first comparison among them. -/
def firstComparison : Node :=
  .relation 1 (.leaf 1 ⟨.ident, .text "a", 1, 1⟩) (.leaf 1 ⟨.ident, .text "b", 1, 5⟩) .less

set_option maxRecDepth 100000 in
/-- An expression ends before the second comparison, whatever stands behind that, and a program
cannot go on with it. -/
theorem comparedTokens_read :
    factorRoom guaranteedRoom ≤ 700 ∧
    nesting (beforeEnd ((closeTokens comparedTokens).drop 0)) ≤ guaranteedNesting ∧
    ((Construct.phrase .expression).Longest (closeTokens comparedTokens) 3 firstComparison ∧
      ∀ ts', (closeTokens ts').take 4 = comparedTokens.take 4 →
        Parse.expression 700 (cursorOn ts' 0 []) = .ok firstComparison (cursorOn ts' 3 [])) ∧
    ∃ e, e.token? = some ⟨.less, .text "<", 1, 7⟩ ∧
      ∀ ts', (closeTokens ts').take 4 = comparedTokens.take 4 →
        Parse.program 700 (cursorOn ts' 0 []) =
          .error (.rejected e) (cursorOn ts' 3 [e.record]) := by
  have hd : factorRoom guaranteedRoom ≤ 700 := by decide
  have hstart : 0 < (closeTokens comparedTokens).length := by decide
  have hthree : 3 < (closeTokens comparedTokens).length := by decide
  have hnesting : nesting (beforeEnd ((closeTokens comparedTokens).drop 0)) ≤ guaranteedNesting := by
    decide
  refine ⟨hd, hnesting, ?_, ?_⟩
  · obtain ⟨j, o, -, hj, hrun, hok, -, hunseen⟩ :=
      (Construct.phrase .expression).reads_with_lookahead hd comparedTokens 0 [] hstart hnesting
    have hvalue : (Construct.phrase .expression).reader 700 (cursorOn comparedTokens 0 []) =
        comesTo comparedTokens 3 [] (.ok firstComparison) := rfl
    rw [hvalue] at hrun
    obtain ⟨rfl, rfl⟩ := comesTo_inj hthree hj hrun
    exact ⟨(hok _ rfl).2, hunseen⟩
  · obtain ⟨j, o, -, hj, hrun, -, herror, hunseen⟩ :=
      Construct.program.reads_with_lookahead hd comparedTokens 0 [] hstart hnesting
    have hvalue : Construct.program.reader 700 (cursorOn comparedTokens 0 []) =
        comesTo comparedTokens 3 []
          (.error (.rejected (.unexpected (.expected .semicolon) ⟨.less, .text "<", 1, 7⟩ 1))) := rfl
    rw [hvalue] at hrun
    obtain ⟨rfl, rfl⟩ := comesTo_inj hthree hj hrun
    exact ⟨_, rfl, hunseen⟩

end MflFrontend
