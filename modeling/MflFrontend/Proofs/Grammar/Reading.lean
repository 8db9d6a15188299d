import MflFrontend.Proofs.Grammar.Stepping

/-!
# What readers accept and where they give up

`Reads d p m` is the contract of a reader `m` of phrases of the sort `p` for which factors have the
room `d`. If it succeeds, it has taken a phrase off the front and made its tree. If it fails, it
stands before the token that it complains about, has left the record of the complaint, and what it
has taken can still be continued to a phrase; it complains about depth only if the parentheses that
open may use up the room.

Each tier keeps the contract of the tier below, so that one induction on the room settles them all.
-/

namespace MflFrontend

/-- The tokens can be continued to a phrase of the sort. -/
def Viable (p : Phrase) (u : List Token) : Prop := ∃ v n, Derives p (u ++ v) n

/-- The room for factors may be used up by the parentheses that open in the tokens. -/
def Crowded (d : Nat) (u : List Token) : Prop := d < 6 * nesting u + 4

/-- A phrase of the sort was taken off the front of `ts`. -/
def Accepted (p : Phrase) (final : Pull) (log : List LogRecord) (ts : List Token) (n : Node)
    (s : ParseState) : Prop :=
  ∃ w rest, ts = w ++ rest ∧ Derives p w n ∧ s = .before final log rest

/-- Reading `ts` stopped before a token that does not fit, behind tokens that are still `viable`. -/
def Rejected (d : Nat) (viable : List Token → Prop) (final : Pull) (log : List LogRecord)
    (ts : List Token) (failure : Failure) (s : ParseState) : Prop :=
  ∃ u t rest, ∃ complaint : Complaint, ts = u ++ t :: rest ∧ viable u ∧
    (complaint = .nestedTooDeeply → Crowded d (u ++ [t])) ∧
    failure = complaint.about t ∧
    s = .before final (log ++ (complaint.about t).records) (t :: rest)

/-- The contract of a reader of phrases. -/
def Reads (d : Nat) (p : Phrase) (m : Parse Node) : Prop :=
  ∀ final log ts, EndsInput ts →
    m.Yields (.before final log ts) (Accepted p final log ts) (Rejected d (Viable p) final log ts)

/-! ## Continuing what was taken -/

/-- A rejection behind `w` is a rejection of the whole, if `w` may stand before what is viable. -/
theorem Rejected.behind {d d' : Nat} {viable viable' : List Token → Prop} {final : Pull}
    {log : List LogRecord} {ts : List Token} {failure : Failure} {s : ParseState} (w : List Token)
    (h : Rejected d viable final log ts failure s) (hv : ∀ u, viable u → viable' (w ++ u))
    (hd : ∀ v, Crowded d v → Crowded d' (w ++ v)) :
    Rejected d' viable' final log (w ++ ts) failure s := by
  obtain ⟨u, t, rest, complaint, rfl, hu, hc, hf, hs⟩ := h
  refine ⟨w ++ u, t, rest, complaint, by simp, hv u hu, fun e => ?_, hf, hs⟩
  rw [List.append_assoc]
  exact hd _ (hc e)

theorem Rejected.weaken {d : Nat} {viable viable' : List Token → Prop} {final : Pull}
    {log : List LogRecord} {ts : List Token} {failure : Failure} {s : ParseState}
    (h : Rejected d viable final log ts failure s) (hv : ∀ u, viable u → viable' u) :
    Rejected d viable' final log ts failure s :=
  h.behind [] hv fun _ => id

/-- Less room is used up sooner. -/
theorem Reads.weaken {d d' : Nat} {p : Phrase} {m : Parse Node} (h : Reads d p m) (hd : d' ≤ d) :
    Reads d' p m := fun final log ts hts =>
  (h final log ts hts).mono (fun _ _ h => h) fun _ _ h =>
    h.behind [] (fun _ hu => hu) fun _ hv => Nat.lt_of_le_of_lt hd hv

/-- No room was used up by parentheses that are closed again. -/
theorem Crowded.behind {d : Nat} {v w : List Token} (h : Crowded d v)
    (hw : nesting v ≤ nesting (w ++ v)) : Crowded d (w ++ v) := by
  unfold Crowded at h ⊢
  omega

/-- Any phrase can begin with a literal, so nothing is viable. -/
theorem Viable.nil (p : Phrase) : Viable p [] := by
  have hf : Derives .factor [{ kind := .trueLit }] _ := .literal (by decide)
  have hp := Derives.single (t := .products) (.plain hf)
  have hc := Derives.uncompared (.single (t := .sums) hp)
  cases p with
  | statement => exact ⟨_, _, .bare (.single (t := .connectives) hc)⟩
  | tier t =>
    cases t with
    | connectives => exact ⟨_, _, .single hc⟩
    | sums => exact ⟨_, _, .single hp⟩
    | products => exact ⟨_, _, hp⟩
  | comparison => exact ⟨_, _, hc⟩
  | negation => exact ⟨_, _, .plain hf⟩
  | factor => exact ⟨_, _, hf⟩

theorem Viable.parenthesis {o : Token} {u : List Token} (ho : o.kind = .openParen)
    (h : Viable .expression u) : Viable .factor (o :: u) := by
  obtain ⟨v, n, hv⟩ := h
  let c : Token := { kind := .closeParen }
  exact ⟨v ++ [c], n, by simpa using Derives.parenthesis ho hv (c := c) rfl⟩

theorem Viable.plain {u : List Token} (h : Viable .factor u) : Viable .negation u := by
  obtain ⟨v, n, hv⟩ := h
  exact ⟨v, n, .plain hv⟩

theorem Viable.negated {k : Token} {u : List Token} (hk : k.kind = .notWord)
    (h : Viable .factor u) : Viable .negation (k :: u) := by
  obtain ⟨v, n, hv⟩ := h
  exact ⟨v, _, .negated hk hv⟩

theorem Viable.single {t : Tier} {u : List Token} (h : Viable t.operand u) :
    Viable (.tier t) u := by
  obtain ⟨v, n, hv⟩ := h
  exact ⟨v, n, .single hv⟩

theorem Viable.joined {t : Tier} {op : Token} {w u : List Token} {l : Node}
    (hw : Derives (.tier t) w l) (hop : op.kind ∈ t.operators) (h : Viable t.operand u) :
    Viable (.tier t) (w ++ op :: u) := by
  obtain ⟨v, n, hv⟩ := h
  exact ⟨v, _, by simpa using Derives.joined hw hop hv⟩

theorem Viable.uncompared {u : List Token} (h : Viable .sum u) : Viable .comparison u := by
  obtain ⟨v, n, hv⟩ := h
  exact ⟨v, n, .uncompared hv⟩

theorem Viable.compared {op : Token} {w u : List Token} {l : Node} (hw : Derives .sum w l)
    (hop : op.kind ∈ TokenKind.relational) (h : Viable .sum u) :
    Viable .comparison (w ++ op :: u) := by
  obtain ⟨v, n, hv⟩ := h
  exact ⟨v, _, by simpa using Derives.compared hw hop hv⟩

theorem Viable.bare {u : List Token} (h : Viable .expression u) : Viable .statement u := by
  obtain ⟨v, n, hv⟩ := h
  exact ⟨v, n, .bare hv⟩

theorem Viable.valWord {k : Token} (hk : k.kind = .valWord) : Viable .statement [k] := by
  obtain ⟨v, n, hv⟩ := Viable.nil .expression
  let x : Token := { kind := .ident }
  let a : Token := { kind := .assign }
  exact ⟨x :: a :: v, _, .binding hk (x := x) rfl (a := a) rfl hv⟩

theorem Viable.boundName {k x : Token} (hk : k.kind = .valWord) (hx : x.kind = .ident) :
    Viable .statement [k, x] := by
  obtain ⟨v, n, hv⟩ := Viable.nil .expression
  let a : Token := { kind := .assign }
  exact ⟨a :: v, _, .binding hk hx (a := a) rfl hv⟩

theorem Viable.binding {k x a : Token} {u : List Token} (hk : k.kind = .valWord)
    (hx : x.kind = .ident) (ha : a.kind = .assign) (h : Viable .expression u) :
    Viable .statement (k :: x :: a :: u) := by
  obtain ⟨v, n, hv⟩ := h
  exact ⟨v, _, .binding hk hx ha hv⟩

/-- The tokens can be continued to a program. -/
def ViableProgram (u : List Token) : Prop := ∃ v tree, DerivesProgram (u ++ v) tree

theorem DerivesAll.append {v w : List Token} {ms ns : List Node} (hv : DerivesAll v ms)
    (hw : DerivesAll w ns) : DerivesAll (v ++ w) (ms ++ ns) := by
  induction hv with
  | nil => exact hw
  | cons h hs _ ih => simpa using DerivesAll.cons h hs ih

theorem DerivesAll.program {w : List Token} {ns : List Node} (h : DerivesAll w ns)
    (hns : ns ≠ []) : ∃ tree, DerivesProgram w tree := by
  obtain ⟨first, w, rfl⟩ := List.exists_cons_of_ne_nil (h.ne_nil hns)
  exact ⟨_, first, ns, rfl, hns, h, rfl⟩

/-- What can be continued to a statement can be continued to a program, also behind statements. -/
theorem Viable.program {u w : List Token} {ns : List Node} (hw : DerivesAll w ns)
    (h : Viable .statement u) : ViableProgram (w ++ u) := by
  obtain ⟨v, n, hv⟩ := h
  let s : Token := { kind := .semicolon }
  obtain ⟨tree, htree⟩ := (hw.append (.cons hv (s := s) rfl .nil)).program (by simp)
  exact ⟨v ++ [s], tree, by simpa using htree⟩

namespace Parse

/-! ## Rejecting and expecting -/

section

variable {α : Type} {d : Nat} {viable : List Token → Prop} {final : Pull} {log : List LogRecord}
  {t : Token} {ts : List Token}

theorem reject_yields {good : α → ParseState → Prop} (complaint : Complaint) (hv : viable [])
    (hd : complaint = .nestedTooDeeply → Crowded d [t]) :
    (reject complaint).Yields (.before final log (t :: ts)) good
      (Rejected d viable final log (t :: ts)) :=
  Yields.of_error (reject_before ..) ⟨[], t, ts, complaint, rfl, hv, hd, rfl, rfl⟩

/-- Expecting a token behind `w`: the token is taken, or the whole is rejected there. -/
theorem expect_yields {kind : TokenKind} (what : Expectation) (w : List Token)
    (hts : EndsInput (t :: ts)) (hk : kind ≠ .endOfInput) (hv : viable w) :
    (expect kind what).Yields (.before final log (t :: ts))
      (fun a s => a = t ∧ t.kind = kind ∧ s = .before final log ts)
      (Rejected d viable final log (w ++ t :: ts)) := by
  by_cases ht : t.kind = kind
  · exact Yields.of_ok (expect_before _ _ what hts ht hk) ⟨rfl, ht, rfl⟩
  · exact Yields.of_error (expect_before_of_ne _ _ _ what ht)
      ⟨w, t, ts, .expected what, rfl, hv, nofun, rfl, rfl⟩

/-- Moving past a token within some room: the room may be used up there. -/
theorem skipWithin_yields {room : Nat} (hts : EndsInput (t :: ts)) (ht : t.kind ≠ .endOfInput)
    (hv : viable []) (hd : room < 3 → Crowded d [t]) :
    (skipWithin room).Yields (.before final log (t :: ts))
      (fun _ s => s = .before final log ts) (Rejected d viable final log (t :: ts)) := by
  rcases Nat.lt_or_ge room 3 with hroom | hroom
  · exact Yields.of_error (skipWithin_before_of_lt _ _ hts ht hroom)
      ⟨[], t, ts, .nestedTooDeeply, rfl, hv, fun _ => hd hroom, rfl, rfl⟩
  · exact Yields.of_ok (skipWithin_before _ _ hts ht hroom) rfl

end

/-! ## Factors -/

/-- A reader of factors whose parentheses hold what another reader accepts. Six frames are taken by
a parenthesis. -/
theorem reads_factorWith {room d : Nat} (hroom : room ≤ d + 6) {expression : Parse Node}
    (he : Reads d .expression expression) : Reads room .factor (factorWith room expression) := by
  intro final log ts hts
  obtain ⟨t, ts, rfl⟩ := hts.exists_cons
  refine Yields.step (currentLine_before ..) ?_
  by_cases hlit : t.kind ∈ TokenKind.literals
  · refine Yields.step (currentIs_of_mem _ _ _ hlit) ?_
    refine Yields.step (current_before ..) ?_
    refine Yields.bind (skipWithin_yields hts (kind_of_mem_literals hlit).2.2.1 (.nil _) fun h => ?_)
      (fun _ _ h => h) ?_
    · unfold Crowded
      omega
    · rintro _ _ rfl
      exact Yields.of_ok rfl ⟨[t], ts, rfl, .literal hlit, rfl⟩
  · refine Yields.step (currentIs_of_not_mem _ _ _ hlit) ?_
    by_cases hmem : t.kind ∈ [TokenKind.openParen]
    · have ho : t.kind = .openParen := List.mem_singleton.mp hmem
      have hne : t.kind ≠ .endOfInput := by rw [ho]; decide
      refine Yields.step (currentIs_of_mem _ _ _ hmem) ?_
      refine Yields.bind (skipWithin_yields hts hne (.nil _) fun h => ?_) (fun _ _ h => h) ?_
      · unfold Crowded
        rw [nesting_open ho]
        omega
      rintro _ _ rfl
      refine Yields.bind (he final log ts (hts.tail hne)) (fun _ _ h => ?_) ?_
      · refine h.behind [t] (fun u => .parenthesis ho) fun v hd => ?_
        unfold Crowded at hd ⊢
        rw [List.singleton_append, nesting_open ho]
        omega
      · rintro n _ ⟨w, rest, rfl, hw, rfl⟩
        have hrest : EndsInput rest := (hts.tail hne).drop hw.kind_ne_end
        obtain ⟨c, rest, rfl⟩ := hrest.exists_cons
        have hv : Viable .factor (t :: w) := .parenthesis ho ⟨[], n, by simpa using hw⟩
        refine Yields.bind (expect_yields .closeParen (t :: w) hrest (by decide) hv)
          (fun _ _ h => h) ?_
        rintro _ _ ⟨rfl, hc, rfl⟩
        exact Yields.of_ok rfl ⟨t :: (w ++ [_]), rest, by simp, .parenthesis ho hw hc, rfl⟩
    · refine Yields.step (currentIs_of_not_mem _ _ _ hmem) ?_
      exact reject_yields _ (.nil _) nofun

/-- Where there is no room at all, nothing is read. -/
theorem reads_reject (p : Phrase) : Reads 0 p (reject .nestedTooDeeply) := by
  intro final log ts hts
  obtain ⟨t, ts, rfl⟩ := hts.exists_cons
  exact reject_yields _ (.nil _) fun _ => Nat.lt_of_lt_of_le (by decide) (Nat.le_add_left 4 _)

/-! ## Negations and chains -/

theorem reads_negationOf {d : Nat} {factor : Parse Node} (hf : Reads d .factor factor) :
    Reads d .negation (negationOf d factor) := by
  intro final log ts hts
  obtain ⟨t, ts, rfl⟩ := hts.exists_cons
  by_cases hmem : t.kind ∈ [TokenKind.notWord]
  · have hk : t.kind = .notWord := List.mem_singleton.mp hmem
    have hne : t.kind ≠ .endOfInput := by rw [hk]; decide
    refine Yields.step (currentIs_of_mem _ _ _ hmem) ?_
    refine Yields.step (currentLine_before ..) ?_
    refine Yields.bind (skipWithin_yields hts hne (.nil _) fun h => ?_) (fun _ _ h => h) ?_
    · unfold Crowded
      omega
    rintro _ _ rfl
    refine Yields.bind (hf final log ts (hts.tail hne)) (fun _ _ h => ?_) ?_
    · refine h.behind [t] (fun u => .negated hk) fun v hd => hd.behind ?_
      exact Nat.le_of_eq (nesting_sign hk v).symm
    · rintro n _ ⟨w, rest, rfl, hw, rfl⟩
      exact Yields.of_ok rfl ⟨t :: w, rest, rfl, .negated hk hw, rfl⟩
  · refine Yields.step (currentIs_of_not_mem _ _ _ hmem) ?_
    refine (hf final log (t :: ts) hts).mono ?_ fun _ _ h => h.weaken fun u => .plain
    rintro n s ⟨w, rest, hts, hw, hs⟩
    exact ⟨w, rest, hts, .plain hw, hs⟩

/-- The loop of a tier: what it takes continues the chain `w` that was taken before. -/
theorem operands_yields {d : Nat} {t : Tier} {operand : Parse Node}
    (ho : Reads d t.operand operand) (rounds : List Pull) (left : Node) (w : List Token)
    (hw : Derives (.tier t) w left) {final : Pull} {log : List LogRecord}
    {ts : List Token} (hts : EndsInput ts) :
    (operands t.operators operand rounds left).Yields (.before final log ts)
      (fun n s => ∃ v rest, ts = v ++ rest ∧ Derives (.tier t) (w ++ v) n ∧
        s = .before final log rest)
      (Rejected d (Viable (.tier t)) final log (w ++ ts)) := by
  induction rounds generalizing left w ts with
  | nil => exact Yields.of_ok rfl ⟨[], ts, rfl, by simpa using hw, rfl⟩
  | cons round rounds ih =>
    obtain ⟨op, ts, rfl⟩ := hts.exists_cons
    by_cases hop : op.kind ∈ t.operators
    · obtain ⟨hok, hck, hne, -⟩ := Tier.kind_of_mem_operators hop
      refine Yields.step (currentIs_of_mem _ _ _ hop) ?_
      refine Yields.step (current_before ..) ?_
      refine Yields.step (skip_before _ _ hts hne) ?_
      refine Yields.bind (ho final log ts (hts.tail hne)) (fun _ _ h => ?_) ?_
      · rw [← List.singleton_append, ← List.append_assoc]
        refine h.behind (w ++ [op]) (fun u hu => ?_) fun z hd => hd.behind ?_
        · simpa using Viable.joined hw hop hu
        · rw [List.append_assoc, List.singleton_append, hw.nesting_append, nesting_other hok hck]
          exact Nat.le_max_right ..
      · rintro n _ ⟨v, rest, rfl, hv, rfl⟩
        have hrest : EndsInput rest := (hts.tail hne).drop hv.kind_ne_end
        -- what was taken so far is the left operand of the next round
        have hloop := ih (.binary op.line left n op.kind) (w ++ op :: v) (.joined hw hop hv) hrest
        refine hloop.mono ?_ fun _ _ h => by simpa using h
        rintro m s ⟨v', rest', rfl, hv', hs⟩
        exact ⟨op :: (v ++ v'), rest', by simp, by simpa using hv', hs⟩
    · refine Yields.step (currentIs_of_not_mem _ _ _ hop) ?_
      exact Yields.of_ok rfl ⟨[], _, rfl, by simpa using hw, rfl⟩

/-- A tier keeps the contract of its operands. -/
theorem reads_tier {d : Nat} {t : Tier} {operand : Parse Node} (ho : Reads d t.operand operand) :
    Reads d (.tier t) (tier t.operators operand) := by
  intro final log ts hts
  refine Yields.bind (ho final log ts hts) (fun _ _ h => h.weaken fun u => .single) ?_
  rintro n _ ⟨w, rest, rfl, hw, rfl⟩
  refine Yields.step (ahead_before ..) ?_
  refine (operands_yields ho _ n w (.single hw) (hts.drop hw.kind_ne_end)).mono ?_ fun _ _ h => h
  rintro m s ⟨v, rest', rfl, hv, hs⟩
  exact ⟨w ++ v, rest', by simp, hv, hs⟩

/-! ## Comparisons and expressions -/

theorem reads_sumOf {d : Nat} {factor : Parse Node} (hf : Reads d .factor factor) :
    Reads d .sum (sumOf d factor) :=
  reads_tier (t := .sums) (reads_tier (t := .products) (reads_negationOf hf))

/-- The operand on the right has less room than the one on the left. -/
theorem reads_comparisonOf {d : Nat} {outer inner : Parse Node} (ho : Reads (d + 1) .factor outer)
    (hi : Reads d .factor inner) : Reads d .comparison (comparisonOf d outer inner) := by
  intro final log ts hts
  have hleft : Reads d .sum (sumOf (d + 1) outer) := (reads_sumOf ho).weaken (Nat.le_succ d)
  refine Yields.bind (hleft final log ts hts) (fun _ _ h => h.weaken fun u => .uncompared) ?_
  rintro l _ ⟨v, rest, rfl, hv, rfl⟩
  have hrest : EndsInput rest := hts.drop hv.kind_ne_end
  obtain ⟨op, rest, rfl⟩ := hrest.exists_cons
  by_cases hop : op.kind ∈ TokenKind.relational
  · obtain ⟨hok, hck, hne, -⟩ := kind_of_mem_relational hop
    refine Yields.step (currentIs_of_mem _ _ _ hop) ?_
    refine Yields.step (current_before ..) ?_
    refine Yields.step (skip_before _ _ hrest hne) ?_
    refine Yields.bind (reads_sumOf hi final log rest (hrest.tail hne)) (fun _ _ h => ?_) ?_
    · rw [← List.singleton_append, ← List.append_assoc]
      refine h.behind (v ++ [op]) (fun u hu => ?_) fun z hd => hd.behind ?_
      · simpa using Viable.compared hv hop hu
      · rw [List.append_assoc, List.singleton_append, hv.nesting_append, nesting_other hok hck]
        exact Nat.le_max_right ..
    · rintro r _ ⟨w, rest, rfl, hw, rfl⟩
      exact Yields.of_ok rfl ⟨v ++ op :: w, rest, by simp, .compared hv hop hw, rfl⟩
  · refine Yields.step (currentIs_of_not_mem _ _ _ hop) ?_
    exact Yields.of_ok rfl ⟨v, _, rfl, .uncompared hv, rfl⟩

theorem reads_expressionOf {d : Nat} {outer inner : Parse Node} (ho : Reads (d + 1) .factor outer)
    (hi : Reads d .factor inner) : Reads d .expression (expressionOf d outer inner) :=
  reads_tier (t := .connectives) (reads_comparisonOf ho hi)

/-- Factors are read in every room. -/
theorem reads_factor (room : Nat) : Reads room .factor (factor room) := by
  induction room using Parse.factor.induct with
  | case1 room outer inner =>
    rw [factor]
    exact reads_factorWith (Nat.le_refl _) (reads_expressionOf outer inner)
  | case2 room hroom =>
    have hlt : room ≤ 0 + 6 := by
      by_contra h
      exact hroom (room - 6) (by omega)
    rw [factor]
    · exact reads_factorWith hlt (reads_reject _)
    · exact hroom

theorem reads_expression (d : Nat) : Reads d .expression (expression d) :=
  reads_expressionOf (reads_factor (d + 1)) (reads_factor d)

/-! ## Statements -/

theorem reads_statement (d : Nat) : Reads d .statement (statement d) := by
  intro final log ts hts
  obtain ⟨k, ts, rfl⟩ := hts.exists_cons
  by_cases hmem : k.kind ∈ [TokenKind.valWord]
  · have hk : k.kind = .valWord := List.mem_singleton.mp hmem
    have hts₁ : EndsInput ts := hts.tail (by rw [hk]; decide)
    refine Yields.step (currentIs_of_mem _ _ _ hmem) ?_
    refine Yields.step (currentLine_before ..) ?_
    refine Yields.step (skip_before _ _ hts (by rw [hk]; decide)) ?_
    obtain ⟨x, ts, rfl⟩ := hts₁.exists_cons
    refine Yields.bind (expect_yields .boundName [k] hts₁ (by decide) (.valWord hk))
      (fun _ _ h => h) ?_
    rintro _ _ ⟨rfl, hx, rfl⟩
    have hts₂ : EndsInput ts := hts₁.tail (by rw [hx]; decide)
    obtain ⟨a, ts, rfl⟩ := hts₂.exists_cons
    refine Yields.bind (expect_yields .assignSign [k, _] hts₂ (by decide) (.boundName hk hx))
      (fun _ _ h => h) ?_
    rintro _ _ ⟨rfl, ha, rfl⟩
    have hts₃ : EndsInput ts := hts₂.tail (by rw [ha]; decide)
    refine Yields.bind (reads_expression d final log ts hts₃) (fun _ _ h => ?_) ?_
    · refine h.behind [k, _, _] (fun u => .binding hk hx ha) fun v hd => hd.behind ?_
      refine Nat.le_of_eq ?_
      simp only [List.cons_append, List.nil_append]
      rw [nesting_sign hk, nesting_sign hx, nesting_sign ha]
    · rintro n _ ⟨w, rest, rfl, hw, rfl⟩
      exact Yields.of_ok rfl ⟨k :: _ :: _ :: w, rest, rfl, .binding hk hx ha hw, rfl⟩
  · refine Yields.step (currentIs_of_not_mem _ _ _ hmem) ?_
    refine (reads_expression d final log (k :: ts) hts).mono ?_ fun _ _ h =>
      h.weaken fun u => .bare
    rintro n s ⟨w, rest, hts, hw, hs⟩
    exact ⟨w, rest, hts, .bare hw, hs⟩

/-! ## Programs -/

/-- A statement and its semicolon, behind statements that were taken before. -/
theorem closedStatement_yields (d : Nat) {w : List Token} {ns : List Node} (hw : DerivesAll w ns)
    {final : Pull} {log : List LogRecord} {ts : List Token} (hts : EndsInput ts) :
    (closedStatement d).Yields (.before final log ts)
      (fun n s => ∃ v rest, ts = v ++ rest ∧ DerivesAll v [n] ∧ s = .before final log rest)
      (Rejected d ViableProgram final log (w ++ ts)) := by
  refine Yields.bind (reads_statement d final log ts hts) (fun _ _ h => ?_) ?_
  · refine h.behind w (fun u hu => hu.program hw) fun v hd => hd.behind ?_
    rw [hw.nesting_append]
    exact Nat.le_max_right ..
  · rintro n _ ⟨v, rest, rfl, hv, rfl⟩
    have hrest : EndsInput rest := hts.drop hv.kind_ne_end
    obtain ⟨s, rest, rfl⟩ := hrest.exists_cons
    have hviable : ViableProgram (w ++ v) := Viable.program hw ⟨[], n, by simpa using hv⟩
    refine Yields.bind (expect_yields .semicolon (w ++ v) hrest (by decide) hviable)
      (fun _ _ h => by simpa using h) ?_
    rintro _ _ ⟨rfl, hs, rfl⟩
    exact Yields.of_ok rfl ⟨v ++ [_], rest, by simp, .cons hv hs .nil, rfl⟩

/-- The loop over statements goes on to the sentinel. The bound on the rounds is no shorter than
what is to come, so that it never ends the loop. -/
theorem statements_yields (d : Nat) (rounds : List Pull) {w : List Token} {ms : List Node}
    (hw : DerivesAll w ms) {final : Pull} {log : List LogRecord} {ts : List Token}
    (hts : EndsInput ts) (hlen : ts.length ≤ rounds.length + 1) :
    (statements d rounds).Yields (.before final log ts)
      (fun ns s => ∃ v e rest, ts = v ++ e :: rest ∧ DerivesAll v ns ∧
        e.kind = .endOfInput ∧ s = .before final log (e :: rest))
      (Rejected d ViableProgram final log (w ++ ts)) := by
  induction rounds generalizing w ms ts with
  | nil =>
    obtain ⟨t, ts, rfl⟩ := hts.exists_cons
    -- where the rounds are used up, only the sentinel is left
    have hnil : ts = [] := List.eq_nil_of_length_eq_zero (Nat.le_zero.mp (Nat.le_of_succ_le_succ hlen))
    obtain ⟨e, he, hk⟩ := hts
    rw [hnil, List.mem_singleton] at he
    exact Yields.of_ok rfl ⟨[], t, ts, rfl, .nil, he ▸ hk, rfl⟩
  | cons round rounds ih =>
    obtain ⟨t, ts, rfl⟩ := hts.exists_cons
    by_cases hmem : t.kind ∈ [TokenKind.endOfInput]
    · refine Yields.step (currentIs_of_mem _ _ _ hmem) ?_
      exact Yields.of_ok rfl ⟨[], t, ts, rfl, .nil, List.mem_singleton.mp hmem, rfl⟩
    · refine Yields.step (currentIs_of_not_mem _ _ _ hmem) ?_
      refine Yields.bind (closedStatement_yields d hw hts) (fun _ _ h => h) ?_
      rintro n _ ⟨v, rest, hv, hn, rfl⟩
      rw [hv] at hts hlen ⊢
      have hrest : EndsInput rest := hts.drop hn.kind_ne_end
      have hvlen : 0 < v.length := List.length_pos_of_ne_nil (hn.ne_nil (by simp))
      rw [List.length_append, List.length_cons] at hlen
      refine Yields.bind (ih (hw.append hn) hrest (by omega)) (fun _ _ h => by simpa using h) ?_
      rintro ns _ ⟨v', e, rest', rfl, hns, he, rfl⟩
      exact Yields.of_ok rfl ⟨v ++ v', e, rest', by simp, hn.append hns, he, rfl⟩

theorem programStatements_yields (d : Nat) {final : Pull} {log : List LogRecord} {ts : List Token}
    (hts : EndsInput ts) :
    (programStatements d).Yields (.before final log ts)
      (fun ns s => ∃ v e rest, ts = v ++ e :: rest ∧ ns ≠ [] ∧ DerivesAll v ns ∧
        e.kind = .endOfInput ∧ s = .before final log (e :: rest))
      (Rejected d ViableProgram final log ts) := by
  refine Yields.bind (closedStatement_yields d .nil hts) (fun _ _ h => h) ?_
  rintro n _ ⟨v, rest, rfl, hn, rfl⟩
  refine Yields.step (ahead_before ..) ?_
  have hrest : EndsInput rest := hts.drop hn.kind_ne_end
  have hlen : rest.length ≤ (rest.tail.map Pull.ofToken).length + 1 := by
    rw [List.length_map, List.length_tail]
    omega
  refine Yields.bind (statements_yields d _ hn hrest hlen) (fun _ _ h => h) ?_
  rintro ns _ ⟨v', e, rest', rfl, hns, he, rfl⟩
  exact Yields.of_ok rfl ⟨v ++ v', e, rest', by simp, by simp, hn.append hns, he, rfl⟩

end Parse

end MflFrontend
