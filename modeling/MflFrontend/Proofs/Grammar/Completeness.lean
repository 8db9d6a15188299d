import MflFrontend.Proofs.Grammar.Reading

/-!
# Phrases are read

Where a phrase stands before a token that cannot extend it, and its parentheses leave room for its
factors, the reader takes the phrase and makes its tree. The proof is by induction on the derivation.

A chain is derived from its last operator and read from its first operand. What is proved of it is
therefore more: behind any part of the chain that ends with an operand, reading the whole is the
same as going on with the loop of the tier (`Continues`).
-/

namespace MflFrontend

/-- The reader of each sort of phrase, for factors with room `d`. In what may have comparisons, the
factors on the left of these have more. -/
def Parse.reader (d : Nat) : Phrase → Parse Node
  | .statement => Parse.statement d
  | .tier .connectives => Parse.expression d
  | .tier .sums => Parse.sumOf d (Parse.factor d)
  | .tier .products => Parse.productOf d (Parse.factor d)
  | .comparison => Parse.comparisonOf d (Parse.factor (d + 1)) (Parse.factor d)
  | .negation => Parse.negationOf d (Parse.factor d)
  | .factor => Parse.factor d

/-- The kinds that, behind a phrase of the sort, may belong to a longer one. -/
def Phrase.extenders : Phrase → List TokenKind
  | .statement | .tier .connectives =>
    TokenKind.logical ++ TokenKind.relational ++ TokenKind.additive ++ TokenKind.multiplicative
  | .comparison => TokenKind.relational ++ TokenKind.additive ++ TokenKind.multiplicative
  | .tier .sums => TokenKind.additive ++ TokenKind.multiplicative
  | .tier .products => TokenKind.multiplicative
  | .negation | .factor => []

/-- The tokens begin with one that cannot extend a phrase of the sort. -/
def Stops (p : Phrase) (rest : List Token) : Prop := ∃ t ts, rest = t :: ts ∧ t.kind ∉ p.extenders

/-- A phrase was taken off the front and `n` was made of it, wherever that is possible. -/
def IsRead (p : Phrase) (w : List Token) (n : Node) : Prop :=
  ∀ d final log rest, ¬ Crowded d w → EndsInput rest → Stops p rest →
    Parse.reader d p (.before final log (w ++ rest)) = .ok n (.before final log rest)

/-- Reading a chain that begins with `w` comes to going on with the loop behind `w`. -/
def Continues (t : Tier) (w : List Token) (n : Node) : Prop :=
  ∀ d final log rest, ¬ Crowded d w → EndsInput rest → Stops t.operand rest →
    ∃ rounds : List Pull, rest.length ≤ rounds.length + 1 ∧
      Parse.reader d (.tier t) (.before final log (w ++ rest)) =
        Parse.operands t.operators (Parse.reader d t.operand) rounds n (.before final log rest)

theorem not_crowded_iff {d : Nat} {w : List Token} : ¬ Crowded d w ↔ 6 * nesting w + 4 ≤ d :=
  Nat.not_lt

/-! ## Where phrases stop -/

theorem EndsInput.append {ts : List Token} (h : EndsInput ts) (w : List Token) :
    EndsInput (w ++ ts) := by
  obtain ⟨e, he, hk⟩ := h
  exact ⟨e, List.mem_append_right w he, hk⟩

theorem EndsInput.cons {ts : List Token} (h : EndsInput ts) (t : Token) : EndsInput (t :: ts) :=
  h.append [t]

/-- What stops a chain stops its last operand, and is no operator of the tier. -/
theorem Tier.extenders_subset {t : Tier} {k : TokenKind} (h : k ∉ (Phrase.tier t).extenders) :
    k ∉ t.operand.extenders ∧ k ∉ t.operators := by
  cases t <;> cases k <;> revert h <;> decide

theorem Tier.operator_stops {t : Tier} {k : TokenKind} (h : k ∈ t.operators) :
    k ∉ t.operand.extenders := by
  cases t <;> cases k <;> revert h <;> decide

theorem comparison_extenders_subset {k : TokenKind} (h : k ∉ Phrase.comparison.extenders) :
    k ∉ Phrase.sum.extenders ∧ k ∉ TokenKind.relational := by
  cases k <;> revert h <;> decide

theorem relational_stops {k : TokenKind} (h : k ∈ TokenKind.relational) :
    k ∉ Phrase.sum.extenders := by
  cases k <;> revert h <;> decide

namespace Parse

/-! ## Chains -/

theorem reader_tier (d : Nat) (t : Tier) :
    reader d (.tier t) = tier t.operators (reader d t.operand) := by
  cases t <;> rfl

/-- The loop of a tier ends before a token that is no operator of it. -/
theorem operands_stop {ops : List TokenKind} {operand : Parse Node} {t : Token}
    (ht : t.kind ∉ ops) (rounds : List Pull) (n : Node) (final : Pull) (log : List LogRecord)
    (ts : List Token) :
    operands ops operand rounds n (.before final log (t :: ts)) =
      .ok n (.before final log (t :: ts)) :=
  operands_of_current? rfl ht rounds n

theorem continues_single {t : Tier} {w : List Token} {n : Node} (hw : IsRead t.operand w n) :
    Continues t w n := by
  intro d final log rest hd hend hstop
  refine ⟨rest.tail.map .ofToken, by rw [List.length_map, List.length_tail]; omega, ?_⟩
  rw [reader_tier, tier, bind_of_ok (hw d final log rest hd hend hstop),
    bind_of_ok (ahead_before ..)]

theorem continues_joined {t : Tier} {op : Token} {v w : List Token} {l r : Node}
    (hv : Derives (.tier t) v l) (ihv : Continues t v l) (hop : op.kind ∈ t.operators)
    (hw : IsRead t.operand w r) :
    Continues t (v ++ op :: w) (.binary op.line l r op.kind) := by
  intro d final log rest hd hend hstop
  obtain ⟨hok, hck, hne, -⟩ := Tier.kind_of_mem_operators hop
  rw [not_crowded_iff, hv.nesting_append, nesting_other hok hck] at hd
  have hvd : ¬ Crowded d v := not_crowded_iff.mpr (by omega)
  have hwd : ¬ Crowded d w := not_crowded_iff.mpr (by omega)
  have hend' : EndsInput (op :: (w ++ rest)) := (hend.append w).cons op
  have hstop' : Stops t.operand (op :: (w ++ rest)) := ⟨op, _, rfl, Tier.operator_stops hop⟩
  obtain ⟨rounds, hlen, hread⟩ := ihv d final log _ hvd hend' hstop'
  rw [List.append_assoc, List.cons_append, hread]
  have hpos : 0 < rest.length := by
    obtain ⟨t₁, ts₁, rfl⟩ := hend.exists_cons
    simp
  rw [List.length_cons, List.length_append] at hlen
  cases rounds with
  | nil =>
    rw [List.length_nil] at hlen
    omega
  | cons round rounds =>
    rw [List.length_cons] at hlen
    refine ⟨rounds, by omega, ?_⟩
    rw [operands, bind_of_ok (currentIs_of_mem _ _ _ hop), if_pos rfl,
      bind_of_ok (current_before ..), bind_of_ok (skip_before _ _ hend' hne),
      bind_of_ok (hw d final log rest hwd hend hstop)]

theorem isRead_of_continues {t : Tier} {w : List Token} {n : Node} (h : Continues t w n) :
    IsRead (.tier t) w n := by
  intro d final log rest hd hend hstop
  obtain ⟨t₁, ts, rfl, ht₁⟩ := hstop
  obtain ⟨hoperand, hop⟩ := Tier.extenders_subset ht₁
  obtain ⟨rounds, -, hread⟩ := h d final log _ hd hend ⟨t₁, ts, rfl, hoperand⟩
  rw [hread, operands_stop hop]

/-! ## The other phrases -/

theorem exists_factorWith (room : Nat) : ∃ inner, factor room = factorWith room inner := by
  cases room using factor.induct with
  | case1 room => exact ⟨_, by rw [factor]⟩
  | case2 room hroom =>
    exact ⟨_, by
      rw [factor]
      exact hroom⟩

theorem isRead_literal {t : Token} (ht : t.kind ∈ TokenKind.literals) :
    IsRead .factor [t] (.leaf t.line t) := by
  intro d final log rest hd hend _
  have hroom := not_crowded_iff.mp hd
  obtain ⟨inner, hinner⟩ := exists_factorWith d
  show factor d _ = _
  rw [hinner, List.singleton_append, factorWith, bind_of_ok (currentLine_before ..),
    bind_of_ok (currentIs_of_mem _ _ _ ht), if_pos rfl, bind_of_ok (current_before ..),
    bind_of_ok (skipWithin_before _ _ (hend.cons t) (kind_of_mem_literals ht).2.2.1 (by omega))]
  rfl

theorem isRead_parenthesis {o c : Token} {w : List Token} {n : Node} (ho : o.kind = .openParen)
    (hw : Derives .expression w n) (ih : IsRead .expression w n) (hc : c.kind = .closeParen) :
    IsRead .factor (o :: (w ++ [c])) n := by
  intro d final log rest hd hend _
  rw [not_crowded_iff, nesting_open ho, hw.nesting_append, nesting_close hc, nesting_nil] at hd
  obtain ⟨room, rfl⟩ : ∃ room, d = room + 6 := ⟨d - 6, by omega⟩
  have hwd : ¬ Crowded room w := not_crowded_iff.mpr (by omega)
  have hc' : EndsInput (c :: rest) := hend.cons c
  have ho' : EndsInput (o :: (w ++ c :: rest)) := (hc'.append w).cons o
  have hlit : o.kind ∉ TokenKind.literals := by rw [ho]; decide
  have hmem : o.kind ∈ [TokenKind.openParen] := by rw [ho]; decide
  have hne : o.kind ≠ .endOfInput := by rw [ho]; decide
  have hstop : Stops .expression (c :: rest) := ⟨c, rest, rfl, by rw [hc]; decide⟩
  have hread := ih room final log (c :: rest) hwd hc' hstop
  rw [List.cons_append, List.append_assoc, List.singleton_append]
  show factor (room + 6) _ = _
  rw [factor]
  show factorWith (room + 6) (reader room .expression) _ = _
  rw [factorWith, bind_of_ok (currentLine_before ..), bind_of_ok (currentIs_of_not_mem _ _ _ hlit),
    if_neg Bool.false_ne_true, bind_of_ok (currentIs_of_mem _ _ _ hmem), if_pos rfl,
    bind_of_ok (skipWithin_before _ _ ho' hne (by omega)), bind_of_ok hread,
    bind_of_ok (expect_before _ _ .closeParen hc' hc (by decide))]
  rfl

theorem isRead_plain {w : List Token} {n : Node} (hw : Derives .factor w n)
    (ih : IsRead .factor w n) : IsRead .negation w n := by
  intro d final log rest hd hend hstop
  have hread : factor d (.before final log (w ++ rest)) = _ := ih d final log rest hd hend hstop
  obtain ⟨t, ts, rfl, hmem⟩ := hw.head_ne (k := .notWord) (by decide)
  show negationOf d (factor d) _ = _
  rw [List.cons_append, negationOf, bind_of_ok (currentIs_of_not_mem _ _ _ hmem),
    if_neg Bool.false_ne_true]
  exact hread

theorem isRead_negated {k : Token} {w : List Token} {n : Node} (hk : k.kind = .notWord)
    (ih : IsRead .factor w n) : IsRead .negation (k :: w) (.unary k.line n .notWord) := by
  intro d final log rest hd hend hstop
  rw [not_crowded_iff, nesting_sign hk] at hd
  have hend' : EndsInput (k :: (w ++ rest)) := (hend.append w).cons k
  have hmem : k.kind ∈ [TokenKind.notWord] := by rw [hk]; decide
  have hne : k.kind ≠ .endOfInput := by rw [hk]; decide
  show negationOf d (reader d .factor) _ = _
  rw [List.cons_append, negationOf, bind_of_ok (currentIs_of_mem _ _ _ hmem), if_pos rfl,
    bind_of_ok (currentLine_before ..),
    bind_of_ok (skipWithin_before _ _ hend' hne (by omega)),
    bind_of_ok (ih d final log rest (not_crowded_iff.mpr hd) hend hstop)]
  rfl

theorem isRead_uncompared {w : List Token} {n : Node} (ih : IsRead .sum w n) :
    IsRead .comparison w n := by
  intro d final log rest hd hend hstop
  obtain ⟨t, ts, rfl, ht⟩ := hstop
  obtain ⟨hsum, hrel⟩ := comparison_extenders_subset ht
  have hwd : ¬ Crowded (d + 1) w := fun h => hd (Nat.lt_of_succ_lt h)
  have hread : sumOf (d + 1) (factor (d + 1)) (.before final log (w ++ t :: ts)) = _ :=
    ih (d + 1) final log _ hwd hend ⟨t, ts, rfl, hsum⟩
  show comparisonOf d (factor (d + 1)) (factor d) _ = _
  rw [comparisonOf, bind_of_ok hread, comparisonFrom, bind_of_ok (currentIs_of_not_mem _ _ _ hrel)]
  rfl

theorem isRead_compared {op : Token} {v w : List Token} {l r : Node} (hv : Derives .sum v l)
    (ihv : IsRead .sum v l) (hop : op.kind ∈ TokenKind.relational) (ihw : IsRead .sum w r) :
    IsRead .comparison (v ++ op :: w) (.relation op.line l r op.kind) := by
  intro d final log rest hd hend hstop
  obtain ⟨hok, hck, hne, -⟩ := kind_of_mem_relational hop
  rw [not_crowded_iff, hv.nesting_append, nesting_other hok hck] at hd
  have hvd : ¬ Crowded (d + 1) v := not_crowded_iff.mpr (by omega)
  have hwd : ¬ Crowded d w := not_crowded_iff.mpr (by omega)
  obtain ⟨t, ts, hrest, ht⟩ := hstop
  have hend' : EndsInput (op :: (w ++ rest)) := (hend.append w).cons op
  have hfirst : sumOf (d + 1) (factor (d + 1)) (.before final log (v ++ op :: (w ++ rest))) = _ :=
    ihv (d + 1) final log _ hvd hend' ⟨op, _, rfl, relational_stops hop⟩
  have hsecond : sumOf d (factor d) (.before final log (w ++ rest)) = _ :=
    ihw d final log rest hwd hend ⟨t, ts, hrest, (comparison_extenders_subset ht).1⟩
  show comparisonOf d (factor (d + 1)) (factor d) _ = _
  rw [List.append_assoc, List.cons_append, comparisonOf, bind_of_ok hfirst, comparisonFrom,
    bind_of_ok (currentIs_of_mem _ _ _ hop), if_pos rfl, bind_of_ok (current_before ..),
    bind_of_ok (skip_before _ _ hend' hne), bind_of_ok hsecond]
  rfl

theorem isRead_bare {w : List Token} {n : Node} (hw : Derives .expression w n)
    (ih : IsRead .expression w n) : IsRead .statement w n := by
  intro d final log rest hd hend hstop
  have hread : expression d (.before final log (w ++ rest)) = _ :=
    ih d final log rest hd hend hstop
  obtain ⟨t, ts, rfl, hmem⟩ := hw.head_ne (k := .valWord) (by decide)
  show statement d _ = _
  rw [List.cons_append, statement, bind_of_ok (currentIs_of_not_mem _ _ _ hmem),
    if_neg Bool.false_ne_true]
  exact hread

theorem isRead_binding {k x a : Token} {w : List Token} {n : Node} (hk : k.kind = .valWord)
    (hx : x.kind = .ident) (ha : a.kind = .assign) (ih : IsRead .expression w n) :
    IsRead .statement (k :: x :: a :: w) (.binary k.line (.leaf x.line x) n .assign) := by
  intro d final log rest hd hend hstop
  rw [not_crowded_iff, nesting_sign hk, nesting_sign hx, nesting_sign ha] at hd
  have hread : expression d (.before final log (w ++ rest)) = _ :=
    ih d final log rest (not_crowded_iff.mpr hd) hend hstop
  have ha' : EndsInput (a :: (w ++ rest)) := (hend.append w).cons a
  have hx' : EndsInput (x :: a :: (w ++ rest)) := ha'.cons x
  have hk' : EndsInput (k :: x :: a :: (w ++ rest)) := hx'.cons k
  have hmem : k.kind ∈ [TokenKind.valWord] := by rw [hk]; decide
  simp only [List.cons_append]
  show statement d _ = _
  rw [statement, bind_of_ok (currentIs_of_mem _ _ _ hmem), if_pos rfl,
    bind_of_ok (currentLine_before ..), bind_of_ok (skip_before _ _ hk' (by rw [hk]; decide)),
    bind_of_ok (expect_before _ _ .boundName hx' hx (by decide)),
    bind_of_ok (expect_before _ _ .assignSign ha' ha (by decide)), bind_of_ok hread]
  rfl

end Parse

/-- Every phrase is read. -/
theorem Derives.isRead {p : Phrase} {w : List Token} {n : Node} (h : Derives p w n) :
    IsRead p w n ∧ ∀ t, p = .tier t → Continues t w n := by
  induction h with
  | literal ht => exact ⟨Parse.isRead_literal ht, nofun⟩
  | parenthesis ho hw hc ih => exact ⟨Parse.isRead_parenthesis ho hw ih.1 hc, nofun⟩
  | plain hw ih => exact ⟨Parse.isRead_plain hw ih.1, nofun⟩
  | negated hk _ ih => exact ⟨Parse.isRead_negated hk ih.1, nofun⟩
  | single _ ih =>
    have hloop := Parse.continues_single ih.1
    refine ⟨Parse.isRead_of_continues hloop, ?_⟩
    rintro _ ⟨⟩
    exact hloop
  | joined hv hop _ ihv ihw =>
    have hloop := Parse.continues_joined hv (ihv.2 _ rfl) hop ihw.1
    refine ⟨Parse.isRead_of_continues hloop, ?_⟩
    rintro _ ⟨⟩
    exact hloop
  | uncompared _ ih => exact ⟨Parse.isRead_uncompared ih.1, nofun⟩
  | compared hv hop _ ihv ihw => exact ⟨Parse.isRead_compared hv ihv.1 hop ihw.1, nofun⟩
  | bare hw ih => exact ⟨Parse.isRead_bare hw ih.1, nofun⟩
  | binding hk hx ha _ ih => exact ⟨Parse.isRead_binding hk hx ha ih.1, nofun⟩

/-! ## Programs -/

namespace Parse

theorem closedStatement_of_derives {d : Nat} {v : List Token} {n : Node} {s : Token}
    (hv : Derives .statement v n) (hs : s.kind = .semicolon) (hd : ¬ Crowded d v) (final : Pull)
    (log : List LogRecord) {rest : List Token} (hend : EndsInput rest) :
    closedStatement d (.before final log (v ++ s :: rest)) = .ok n (.before final log rest) := by
  have hstop : Stops .statement (s :: rest) := ⟨s, rest, rfl, by rw [hs]; decide⟩
  have hread : statement d (.before final log (v ++ s :: rest)) = _ :=
    hv.isRead.1 d final log (s :: rest) hd (hend.cons s) hstop
  rw [closedStatement, bind_of_ok hread,
    bind_of_ok (expect_before _ _ .semicolon (hend.cons s) hs (by decide))]
  rfl

theorem not_crowded_closed {d : Nat} {v w : List Token} {n : Node} {s : Token}
    (hv : Derives .statement v n) (hs : s.kind = .semicolon) (h : ¬ Crowded d (v ++ s :: w)) :
    ¬ Crowded d v ∧ ¬ Crowded d w := by
  rw [not_crowded_iff, nesting_closed hv hs] at h
  exact ⟨not_crowded_iff.mpr (by omega), not_crowded_iff.mpr (by omega)⟩

/-- Reading statements comes to taking those in front and reading on behind them. -/
theorem statements_append {d : Nat} {w : List Token} {ns : List Node} (hw : DerivesAll w ns)
    (hd : ¬ Crowded d w) (final : Pull) (log : List LogRecord) {rest : List Token}
    (hend : EndsInput rest) (rounds : List Pull) (hlen : (w ++ rest).length ≤ rounds.length + 1) :
    ∃ rounds' : List Pull, rest.length ≤ rounds'.length + 1 ∧
      statements d rounds (.before final log (w ++ rest)) =
        (statements d rounds' >>= fun ms => return ns ++ ms) (.before final log rest) := by
  induction hw generalizing rounds with
  | nil => exact ⟨rounds, hlen, by simp only [List.nil_append, bind_pure]⟩
  | @cons s v w n ns hv hs _ ih =>
    obtain ⟨hvd, hwd⟩ := not_crowded_closed hv hs hd
    obtain ⟨t, ts, rfl, hmem⟩ := hv.head_ne (k := .endOfInput) (by decide)
    have hclosed := closedStatement_of_derives hv hs hvd final log (hend.append w)
    have hpos : 0 < rest.length := by
      obtain ⟨t₁, ts₁, rfl⟩ := hend.exists_cons
      exact Nat.succ_pos _
    simp only [List.append_assoc, List.cons_append, List.length_cons, List.length_append]
      at hlen hclosed ⊢
    cases rounds with
    | nil =>
      rw [List.length_nil] at hlen
      omega
    | cons round rounds =>
      rw [List.length_cons] at hlen
      obtain ⟨rounds', hlen', hloop⟩ := ih hwd rounds (by rw [List.length_append]; omega)
      refine ⟨rounds', hlen', ?_⟩
      rw [statements, bind_of_ok (currentIs_of_not_mem _ _ _ hmem), if_neg Bool.false_ne_true,
        bind_of_ok hclosed, bind_congr hloop]
      simp only [bind_assoc, pure_bind]

/-- The statements of a program are those in front and those that are read on behind them. -/
theorem programStatements_append {d : Nat} {w : List Token} {ns : List Node} (hw : DerivesAll w ns)
    (hns : ns ≠ []) (hd : ¬ Crowded d w) (final : Pull) (log : List LogRecord) {rest : List Token}
    (hend : EndsInput rest) :
    ∃ rounds : List Pull, rest.length ≤ rounds.length + 1 ∧
      programStatements d (.before final log (w ++ rest)) =
        (statements d rounds >>= fun ms => return ns ++ ms) (.before final log rest) := by
  cases hw with
  | nil => exact absurd rfl hns
  | @cons s v w n ns hv hs hw =>
    obtain ⟨hvd, hwd⟩ := not_crowded_closed hv hs hd
    have hlen : (w ++ rest).length ≤ ((w ++ rest).tail.map Pull.ofToken).length + 1 := by
      rw [List.length_map, List.length_tail]
      omega
    obtain ⟨rounds, hrounds, hloop⟩ :=
      statements_append hw hwd final log hend _ hlen
    refine ⟨rounds, hrounds, ?_⟩
    rw [List.append_assoc, List.cons_append, programStatements,
      bind_of_ok (closedStatement_of_derives hv hs hvd final log (hend.append w)),
      bind_of_ok (ahead_before ..), bind_congr hloop]
    simp only [bind_assoc, pure_bind, List.cons_append]

theorem programStatements_of_derives {d : Nat} {w : List Token} {ns : List Node}
    (hw : DerivesAll w ns) (hns : ns ≠ []) (hd : ¬ Crowded d w) (final : Pull)
    (log : List LogRecord) {e : Token} (he : e.kind = .endOfInput) (rest : List Token) :
    programStatements d (.before final log (w ++ e :: rest)) =
      .ok ns (.before final log (e :: rest)) := by
  have hend : EndsInput (e :: rest) := ⟨e, List.mem_cons_self, he⟩
  obtain ⟨rounds, -, hread⟩ := programStatements_append hw hns hd final log hend
  have hdone : statements d rounds (.before final log (e :: rest)) =
      .ok [] (.before final log (e :: rest)) := statements_of_current? rfl he d rounds
  rw [hread, bind_of_ok hdone, List.append_nil]
  rfl

end Parse

end MflFrontend
