import MflFrontend.Proofs.Grammar.Interleaving
import MflFrontend.Proofs.Lexing.Concatenation

/-!
# Programs one below the other

A program that follows another one below it adds its statements, on lines further down. A parse of
both goes in lockstep with one of the first program up to the semicolon behind its last statement.
Taking that semicolon asks for the first token of the second program. The parse is then, in the loop
over statements, where a parse of the second program alone is at its start, and goes in lockstep
with that one from there on; so they find the same statements or the same error.

In neither part have the parses different room for readings that take the same. The reading of the
first token of the second program takes other frames in the two parses; but what closes a statement
is taken without asking for room.
-/

namespace MflFrontend

/-! ## Trees further down -/

mutual

/-- The tree, `d` lines further down; so are its tokens. -/
def Node.shift (d : Int) : Node → Node
  | .program line ns => .program (line + d) (shiftAll d ns)
  | .binding line name rhs => .binding (line + d) (name.shift d) (rhs.shift d)
  | .binary line l r op => .binary (line + d) (l.shift d) (r.shift d) op
  | .relation line l r op => .relation (line + d) (l.shift d) (r.shift d) op
  | .unary line n op => .unary (line + d) (n.shift d) op
  | .leaf line t => .leaf (line + d) (t.shift d)
  | .stray line name => .stray (line + d) name

/-- The trees, `d` lines further down. -/
def Node.shiftAll (d : Int) : List Node → List Node
  | [] => []
  | n :: ns => n.shift d :: shiftAll d ns

end

/-- The second token is the first one, `d` lines further down. -/
def Token.IsBelow (d : Int) (t t' : Token) : Prop := t' = t.shift d

theorem Token.IsBelow.kind_eq {d : Int} {t t' : Token} (h : t.IsBelow d t') : t.kind = t'.kind := by
  rw [IsBelow] at h
  rw [h, shift_kind]

/-- Parses with the same room, of which the second has its tokens and failures `d` lines further
down. -/
def belowParse (d : Int) : Pairing :=
  .strict (Token.IsBelow d) Token.IsBelow.kind_eq fun f f' => f' = f.shift d

/-- A pull corresponds to the one further down. -/
theorem Pull.paired_below (p : Pull) (d : Int) (hframes : 0 < p.frames) :
    p.Paired (belowParse d) (p.shift d) := by
  refine ⟨?_, Pairing.frames_self hframes⟩
  cases hp : p.outcome with
  | ok t => exact .inl ⟨t, t.shift d, rfl, shift_ok hp, rfl⟩
  | error failure => exact .inr ⟨failure, failure.shift d, rfl, shift_error hp, rfl⟩

theorem LineRelated.eq_add {d l l' : Int} (h : LineRelated (Token.IsBelow d) l l') : l' = l + d := by
  obtain ⟨t, t', ht, rfl, rfl⟩ := h
  rw [ht, Token.shift_line]

theorem Node.RelatedBy.eq_shift {d : Int} {n n' : Node} (h : RelatedBy (Token.IsBelow d) n n') :
    n' = n.shift d := by
  induction h with
  | leaf hl ht => rw [shift, hl.eq_add, ht]
  | unary op hl _ ih => rw [shift, hl.eq_add, ih]
  | binary op hl _ _ iha ihb => rw [shift, hl.eq_add, iha, ihb]
  | relation op hl _ _ iha ihb => rw [shift, hl.eq_add, iha, ihb]

theorem eq_map_of_forall₂ {α β : Type} {f : α → β} {as : List α} {bs : List β}
    (h : List.Forall₂ (fun a b => b = f a) as bs) : bs = as.map f := by
  induction h with
  | nil => rfl
  | cons hab _ ih => rw [List.map_cons, hab, ih]

/-- A complaint of a token further down is the complaint of the token, further down. -/
theorem Complaint.about_shift (complaint : Complaint) (t : Token) (d : Int) :
    complaint.about (t.shift d) = (complaint.about t).shift d := by
  by_cases ht : t.IsDescribable
  · have ht' : (t.shift d).IsDescribable := ht
    rw [about_of_describable ht, about_of_describable ht']
    rfl
  · have ht' : ¬ (t.shift d).IsDescribable := ht
    rw [about, about, if_neg ht, if_neg ht']
    rfl

namespace Parse

variable {d : Nat} {last : Pull} {v' : List Pull} {s s' : ParseState}

/-! ## Up to the last semicolon -/

/-- What is read again and again stays the same. -/
def Law.repeating : Law where
  good s s' := s'.source.final = s.source.final
  bad _ _ _ := True
  refl _ := rfl
  trans h h' := h'.trans h
  trans_bad _ _ := trivial

instance repeating_primitive : Law.repeating.Primitive where
  current := by
    constructor
    intro s
    unfold Yields current
    cases s.source.current <;> trivial
  skip := by
    constructor
    intro s
    cases hpull : s.source.pull.outcome with
    | ok t => exact Yields.of_ok (skip_of_ok hpull) rfl
    | error failure => exact Yields.of_error (skip_of_error hpull) trivial
  reject complaint _ := ⟨fun s => (reject_fails complaint s).mono (fun _ _ h => h.elim) fun _ _ h => h⟩

/-- A token is taken if it is of the kind and the next pull does not fail. -/
theorem expect_of_ok {kind : TokenKind} {what : Expectation} {t : Token} {s₁ : ParseState}
    (h : expect kind what s = .ok t s₁) :
    s.source.current? = some t ∧ t.kind = kind ∧ skip s = .ok () s₁ := by
  obtain ⟨u, s₂, hcurrent, h⟩ := ok_of_bind h
  cases hc : s.source.current? with
  | none =>
    rw [current_of_none hc] at hcurrent
    cases hcurrent
  | some a =>
    rw [current_of_current? hc] at hcurrent
    injection hcurrent with ha hs
    subst ha hs
    by_cases hkind : a.kind = kind
    · rw [if_pos hkind] at h
      obtain ⟨_, s₃, hskip, h⟩ := ok_of_bind h
      injection h with ha hs
      subst ha hs
      exact ⟨rfl, hkind, hskip⟩
    · rw [if_neg hkind] at h
      exact ((reject_fails _ s).good_of_ok h).elim

theorem expect_of_current? {kind : TokenKind} {what : Expectation} {t : Token}
    (h : s.source.current? = some t) (hkind : t.kind = kind) :
    expect kind what s = (skip >>= fun _ => return t) s := by
  rw [expect, bind_of_ok (current_of_current? h), if_pos hkind]

/-- Parses of the same tokens, none of which is a sentinel, of which the second is roomier. -/
def amongTokens : Pairing where
  token t t' := t = t' ∧ t.kind ≠ .endOfInput
  kind_eq h := congrArg Token.kind h.1
  failure _ _ := False
  slack := 0
  roomier := True

theorem amongTokens_rooms (d : Nat) : amongTokens.Rooms d d := ⟨Nat.le_refl d, .inl trivial⟩

/-- The first parse is somewhere in a program that ends with the pull `last`, and the second is at
the same place of that program with other pulls behind it. -/
structure Among (last : Pull) (v' : List Pull) (s s' : ParseState) : Prop where
  /-- The tokens of the program are to come in both. -/
  abreast : Abreast amongTokens [last] v' s s'
  /-- The first parse ends at the sentinel. -/
  closed : Abreast (.roomy (fun _ _ => False) 0) [] [] s s

/-- A step that succeeds keeps the end at the sentinel. -/
theorem closed_of_ok {α : Type} {m : Parse α} {Q : α → α → Prop}
    (hm : Tracks (.roomy (fun _ _ => False) 0) Q m m)
    (h : Abreast (.roomy (fun _ _ => False) 0) [] [] s s) {a : α} {s₁ : ParseState}
    (hrun : m s = .ok a s₁) : Abreast (.roomy (fun _ _ => False) 0) [] [] s₁ s₁ := by
  rcases (hm [] [] s s h).closed with ⟨a', b, u, u', hrun₁, hrun₂, -, hu⟩ | ⟨_, _, hrun₁, -⟩
  · rw [hrun] at hrun₁ hrun₂
    cases hrun₁
    cases hrun₂
    exact hu
  · rw [hrun] at hrun₁
    cases hrun₁

theorem roomy_rooms (d : Nat) : (Pairing.roomy (fun _ _ => False) 0).Rooms d d :=
  ⟨Nat.le_refl d, .inl trivial⟩

/-- A closed statement of the program is read in both parses. Behind the last one the second parse is
about to ask for the first of the other pulls. -/
theorem Among.closedStatement (h : Among last v' s s') {n : Node} {s₁ : ParseState}
    (hrun : closedStatement d s = .ok n s₁) :
    (∃ s₁', closedStatement d s' = .ok n s₁' ∧ Among last v' s₁ s₁' ∧
      s₁'.source.final = s'.source.final) ∨
    (∃ e, s₁.source.current? = some e ∧ e.kind = .endOfInput) ∧
      ∃ s₂, s₂.source.ahead = v' ∧ s₂.source.final = s'.source.final ∧
        closedStatement d s' = (skip >>= fun _ => return n) s₂ := by
  have hclosed₁ := closed_of_ok (Tracks.closedStatement (roomy_rooms d)) h.closed hrun
  obtain ⟨n₀, s₂, hstatement, hrest⟩ := ok_of_bind hrun
  obtain ⟨t, s₃, hexpect, hrest⟩ := ok_of_bind hrest
  cases hrest
  obtain ⟨ht, hkind, hskip⟩ := expect_of_ok hexpect
  have hclosed₂ := closed_of_ok (Tracks.statement (roomy_rooms d)) h.closed hstatement
  have hfinal : Obeys .repeating (statement d) := inferInstance
  have htracks := Tracks.statement (amongTokens_rooms d) [last] v' s s' h.abreast
  rcases htracks.good_of_ok hstatement with ⟨hlen, -⟩ | ⟨n', s₂', hstatement', hn, habreast⟩
  · -- only the sentinel stands where nothing is to come
    have hnil : s₂.source.ahead = [] := List.eq_nil_of_length_eq_zero (by simpa using hlen)
    obtain ⟨e, -, he, -, hend, -⟩ := hclosed₂.at_end (.inl hnil)
    rw [ht] at he
    cases he
    rw [hkind] at hend
    cases hend
  · obtain rfl := Node.RelatedBy.eq And.left hn
    have hfinal₂ : s₂'.source.final = s'.source.final := (hfinal.yields s').good_of_ok hstatement'
    have ⟨us, us', a, a', hs₂, hs₂', hus, ha, ha', haa, _⟩ := habreast
    rw [ht] at ha
    cases ha
    obtain ⟨rfl, -⟩ := haa
    have hbind : Parse.closedStatement d s' = (expect .semicolon .semicolon >>= fun _ => return n) s₂' := by
      rw [Parse.closedStatement, bind_of_ok hstatement']
    cases hus with
    | nil =>
      have hahead : s₁.source.ahead = [] := by
        rw [(skip_ahead s₂).good_of_ok hskip, hs₂]
        rfl
      obtain ⟨e, -, he, -, hend, -⟩ := hclosed₁.at_end (.inl hahead)
      refine .inr ⟨⟨e, he, hend⟩, s₂', hs₂', hfinal₂, ?_⟩
      rw [hbind, bind_congr (expect_of_current? ha' hkind)]
      simp only [bind_assoc, pure_bind]
    | cons hp hus =>
      have hskips := Tracks.skip [last] v' s₂ s₂' habreast
      rcases hskips.good_of_ok hskip with ⟨hlen, -⟩ | ⟨_, s₁', hskip', -, h₁⟩
      · rw [(skip_ahead s₂).good_of_ok hskip, hs₂] at hlen
        simp at hlen
      · have hfinal₁ : s₁'.source.final = s₂'.source.final :=
          (repeating_primitive.skip.yields s₂').good_of_ok hskip'
        refine .inl ⟨s₁', ?_, ⟨h₁, hclosed₁⟩, hfinal₁.trans hfinal₂⟩
        rw [hbind, bind_congr (expect_of_current? ha' hkind)]
        simp only [bind_assoc, pure_bind]
        exact bind_of_ok hskip'

/-- The step comes to these nodes and goes on with the pulls `v` to come: it moves to the first of
them and into the loop over statements, with a bound that counts. -/
def LeadsTo (d : Nat) (v : List Pull) (s : ParseState) (ns : List Node) (m : Parse (List Node)) :
    Prop :=
  ∃ s₂ rounds, s₂.source.ahead = v ∧ s₂.source.final = s.source.final ∧
    v.length ≤ rounds.length + 1 ∧
    m s = (skip >>= fun _ => statements d rounds >>= fun ms => return ns ++ ms) s₂

/-- In the middle of the program a statement begins in both parses, and something is to come. -/
theorem Among.begins (h : Among last v' s s') :
    currentIs [.endOfInput] s = .ok false s ∧ currentIs [.endOfInput] s' = .ok false s' ∧
      s.source.ahead ≠ [] ∧ s'.source.ahead ≠ [] := by
  have ⟨us, us', t, t', hs, _, _, ht, ht', htt, _⟩ := h.abreast
  obtain ⟨rfl, hkind⟩ := htt
  have hfalse : [TokenKind.endOfInput].contains t.kind = false := by simpa using hkind
  refine ⟨?_, ?_, by simp [hs], fun hnil => ?_⟩
  · rw [currentIs_of_current? ht, hfalse]
  · rw [currentIs_of_current? ht', hfalse]
  · obtain ⟨a, -, ha, -, hend, -⟩ := h.abreast.at_end (.inr hnil)
    rw [ht] at ha
    cases ha
    exact hkind hend

/-- The loop over the statements of the program comes to them in the second parse as well, and goes
on there. -/
theorem Among.statements (h : Among last v' s s') {rounds rounds' : List Pull} {ns : List Node}
    {s₁ : ParseState} (hrun : statements d rounds s = .ok ns s₁)
    (hlen : s.source.ahead.length ≤ rounds.length)
    (hlen' : s'.source.ahead.length ≤ rounds'.length) :
    LeadsTo d v' s' ns (Parse.statements d rounds') := by
  induction rounds generalizing s s' rounds' ns with
  | nil => exact absurd (List.eq_nil_of_length_eq_zero (Nat.le_zero.mp hlen)) h.begins.2.2.1
  | cons round rounds ih =>
    obtain ⟨hbegins, hbegins', hne, hne'⟩ := h.begins
    obtain ⟨round', rounds', rfl⟩ : ∃ r rs, rounds' = r :: rs := by
      refine List.exists_cons_of_ne_nil ?_
      rintro rfl
      exact hne' (List.eq_nil_of_length_eq_zero (Nat.le_zero.mp hlen'))
    have hlength := h.abreast.length
    have hpos := List.length_pos_of_ne_nil hne
    rw [List.length_cons] at hlen hlen'
    rw [Parse.statements, bind_of_ok hbegins, if_neg Bool.false_ne_true] at hrun
    obtain ⟨n, s₂, hclosed, hrun⟩ := ok_of_bind hrun
    obtain ⟨ms, s₃, hloop, hrun⟩ := ok_of_bind hrun
    injection hrun with hns hs
    subst hns hs
    unfold LeadsTo
    rw [Parse.statements, bind_of_ok hbegins', if_neg Bool.false_ne_true]
    rcases h.closedStatement hclosed with
      ⟨s₂', hclosed', h₂, hfinal⟩ | ⟨⟨e, he, hend⟩, s₂', hahead, hfinal, hclosed'⟩
    · have htakes := (closedStatement_takes d s).good_of_ok hclosed
      have hlength₂ := h₂.abreast.length
      obtain ⟨s₄, rounds₄, hahead₄, hfinal₄, hrounds₄, hloop'⟩ :=
        ih h₂ hloop (by omega) (show s₂'.source.ahead.length ≤ rounds'.length by omega)
      refine ⟨s₄, rounds₄, hahead₄, hfinal₄.trans hfinal, hrounds₄, ?_⟩
      rw [bind_of_ok hclosed', bind_congr hloop']
      simp only [bind_assoc, pure_bind, List.cons_append]
    · rw [statements_of_current? he hend] at hloop
      injection hloop with hms
      subst hms
      refine ⟨s₂', rounds', hahead, hfinal, by simp at hlength; omega, ?_⟩
      rw [bind_congr hclosed']
      simp only [bind_assoc, pure_bind, List.nil_append, List.cons_append]

/-- Where moving on comes before looking at what is to come, it is known what is to come. -/
theorem skip_then_ahead {α : Type} (k : List Pull → Parse α) (s : ParseState) :
    (skip >>= fun _ => ahead >>= k) s = (skip >>= fun _ => k s.source.ahead.tail) s := by
  cases hskip : skip s with
  | ok _ s₁ =>
    have hahead : ahead s₁ = .ok s.source.ahead.tail s₁ := by
      rw [← (skip_ahead s).good_of_ok hskip]
      rfl
    rw [bind_of_ok hskip, bind_of_ok hskip, bind_of_ok hahead]
  | error failure s₁ => rw [bind_of_error hskip, bind_of_error hskip]

/-- The statements of the program are read in the second parse as well, which goes on there. -/
theorem Among.programStatements (h : Among last v' s s') {ns : List Node} {s₁ : ParseState}
    (hrun : programStatements d s = .ok ns s₁) : LeadsTo d v' s' ns (Parse.programStatements d) := by
  obtain ⟨n, s₂, hclosed, hrun⟩ := ok_of_bind hrun
  obtain ⟨rounds, s₃, hahead, hrun⟩ := ok_of_bind hrun
  obtain ⟨ms, s₄, hloop, hrun⟩ := ok_of_bind hrun
  injection hrun with hns hs
  injection hahead with hrounds hs₃
  subst hns hs hrounds hs₃
  rcases h.closedStatement hclosed with
    ⟨s₂', hclosed', h₂, hfinal⟩ | ⟨⟨e, he, hend⟩, s₂', hahead, hfinal, hclosed'⟩
  · obtain ⟨s₄, rounds₄, hahead₄, hfinal₄, hrounds₄, hloop'⟩ :=
      h₂.statements hloop (Nat.le_refl _) (Nat.le_refl _)
    refine ⟨s₄, rounds₄, hahead₄, hfinal₄.trans hfinal, hrounds₄, ?_⟩
    have hahead' : ahead s₂' = .ok s₂'.source.ahead s₂' := rfl
    rw [Parse.programStatements, bind_of_ok hclosed', bind_of_ok hahead', bind_congr hloop']
    simp only [bind_assoc, pure_bind, List.cons_append]
  · rw [statements_of_current? he hend] at hloop
    injection hloop with hms
    subst hms
    refine ⟨s₂', s₂'.source.ahead.tail, hahead, hfinal, ?_, ?_⟩
    · rw [hahead, List.length_tail]
      omega
    · rw [Parse.programStatements, bind_congr hclosed']
      simp only [bind_assoc, pure_bind, List.singleton_append]
      exact skip_then_ahead (fun rounds => Parse.statements d rounds >>= fun ms => return n :: ms) s₂'

/-! ## Behind the last semicolon -/

/-- The last steps of a parse, once the statements were read. -/
def finish (line : Int) (ns : List Node) : Parse SyntaxTree := do
  let _ ← expect .endOfInput .endOfInput
  record (.parsed ns.length)
  return ⟨.program line ns⟩

instance Shrinks.finish (line : Int) (ns : List Node) : Shrinks (finish line ns) := by
  unfold Parse.finish
  infer_instance

/-- What a parse has still to do that has read the statements of a program and is about to take the
semicolon behind the last of them. -/
def goOn (d : Nat) (line : Int) (ns : List Node) (rounds : List Pull) : Parse SyntaxTree := do
  skip
  let ms ← statements d rounds
  finish line (ns ++ ms)

/-- What a program comes to that is followed by other pulls. -/
theorem Among.programBody (h : Among last v' s s') {tree : SyntaxTree} {s₁ : ParseState}
    (hrun : programBody d s = .ok tree s₁) :
    ∃ line ns s₂ rounds, tree = ⟨.program line ns⟩ ∧ s₂.source.ahead = v' ∧
      s₂.source.final = s'.source.final ∧ v'.length ≤ rounds.length + 1 ∧
      Parse.programBody d s' = goOn d line ns rounds s₂ := by
  have ⟨_, _, t, t', _, _, _, ht, ht', htt, _⟩ := h.abreast
  obtain ⟨rfl, -⟩ := htt
  rw [Parse.programBody, bind_of_ok (currentLine_of_current? ht)] at hrun
  obtain ⟨ns, s₂, hstatements, hrun⟩ := ok_of_bind hrun
  obtain ⟨_, _, -, hrun⟩ := ok_of_bind hrun
  obtain ⟨_, _, -, hrun⟩ := ok_of_bind hrun
  injection hrun with htree _
  obtain ⟨s₃, rounds, hahead, hfinal, hrounds, hleads⟩ := h.programStatements hstatements
  refine ⟨t.line, ns, s₃, rounds, htree.symm, hahead, hfinal, hrounds, ?_⟩
  rw [Parse.programBody, bind_of_ok (currentLine_of_current? ht'), bind_congr hleads]
  simp only [bind_assoc, pure_bind, goOn, Parse.finish]

section Joint

variable {front : List Pull} {ws : List Token} {e : Token} (hfront : Brings front ws)
  (hws : ∀ t ∈ ws, t.kind ≠ .endOfInput) (hne : ws ≠ []) (hlast : last.outcome = .ok e)
  (he : e.kind = .endOfInput) (hframes : ∀ p ∈ front ++ [last], 0 < p.frames)

include hfront hws hne hlast he hframes

/-- A parse of the pulls of a program with other pulls behind it comes to its statements, and goes on
there. -/
theorem wholeProgram_leads {idle : Int} (idle' : Int) {tree : SyntaxTree} {s₁ : ParseState}
    (hrun : wholeProgram d (startOfPulls (front ++ [last]) idle) = .ok tree s₁) (q : Pull)
    (qs : List Pull) :
    ∃ line ns s₂ rounds, tree = ⟨.program line ns⟩ ∧ s₂.source.ahead = q :: qs ∧
      s₂.source.final = (startOfPulls (front ++ q :: qs) idle').source.final ∧
      qs.length ≤ rounds.length ∧
      wholeProgram d (startOfPulls (front ++ q :: qs) idle') = goOn d line ns rounds s₂ := by
  cases hfront with
  | nil => exact absurd rfl hne
  | @cons p t ps ts hp hps =>
    obtain ⟨u, hskip, hahead, hcurrent, hfinal⟩ :=
      skip_token (s := startOfPulls (p :: ps ++ [last]) idle) (t := t) hp
    obtain ⟨u', hskip', hahead', hcurrent', hfinal'⟩ :=
      skip_token (s := startOfPulls (p :: ps ++ q :: qs) idle') (t := t) hp
    have hps : Brings ps ts := hps
    have hbrings : Brings (p :: ps ++ [last]) (t :: ts ++ [e]) :=
      Brings.append (.cons hp hps) (.cons hlast .nil)
    have hconcluded := hbrings.concluded he
    have hself : List.Forall₂ (Pull.Paired (.roomy (fun _ _ => False) 0)) (p :: ps ++ [last])
        (p :: ps ++ [last]) := hbrings.paired_self (fun _ _ => rfl) hframes
    obtain ⟨hpaired, hkind⟩ := hconcluded.final hself (.ofToken { kind := .endOfInput, line := 1 })
      (.ofToken { kind := .endOfInput, line := 1 })
    obtain ⟨ht, hts⟩ := List.forall_mem_cons.mp hws
    have hamong : List.Forall₂ (Pull.Paired amongTokens) ps ps :=
      hps.paired_self (fun a ha => ⟨rfl, hts a ha⟩) fun a ha => hframes a (by simp [ha])
    have h : Among last (q :: qs) u u' := by
      constructor
      case abreast =>
        exact ⟨ps, ps, t, t, hahead, hahead', hamong, hcurrent, hcurrent', ⟨rfl, ht⟩,
          .inl ⟨List.cons_ne_nil _ _, .inl (List.cons_ne_nil _ _), .inl trivial⟩⟩
      case closed =>
        have hends : EndsAtSentinel t (ps ++ [last]) := hconcluded.endsAtSentinel hp
        have hsplit : u.source.ahead = (ps ++ [last]) ++ [] := by
          rw [List.append_nil]
          exact hahead
        refine ⟨ps ++ [last], ps ++ [last], t, t, hsplit, hsplit, (List.forall₂_cons.mp hself).2, hcurrent,
          hcurrent, rfl, .inr ⟨rfl, rfl, hends, ?_⟩⟩
        rw [hfinal]
        exact ⟨hpaired, hkind⟩
    rw [wholeProgram_eq, bind_of_ok hskip] at hrun
    obtain ⟨line, ns, s₂, rounds, htree, hahead₂, hfinal₂, hrounds, hbody⟩ := h.programBody hrun
    refine ⟨line, ns, s₂, rounds, htree, hahead₂, hfinal₂.trans hfinal', by simpa using hrounds, ?_⟩
    rw [wholeProgram_eq, bind_of_ok hskip', hbody]

end Joint

/-- Parses that have read corresponding statements end alike, whatever statements the second has read
before. -/
theorem finish_tracks {K : Pairing} (line line' : Int) (ns : List Node) {ms ms' : List Node}
    (hms : List.Forall₂ (Node.RelatedBy K.token) ms ms') :
    Tracks K (fun tree tree' => ∃ ms ms', tree = ⟨.program line ms⟩ ∧
        tree' = ⟨.program line' (ns ++ ms')⟩ ∧ List.Forall₂ (Node.RelatedBy K.token) ms ms')
      (finish line ms) (finish line' (ns ++ ms')) := by
  refine (Tracks.expect _ _).bind fun _ _ _ => ?_
  refine (Tracks.record _ _).bind fun _ _ _ => ?_
  exact Tracks.pure ⟨ms, ms', rfl, rfl, hms⟩

/-- Behind its first token a program and the one further down have the same to come. The pull that
repeats is not the first, which may take other frames. -/
theorem abreast_below {δ : Int} {p : Pull} {more front : List Pull} {u : Token} {q : Pull}
    {r r' : ParseState} (hp : p.outcome = .ok u) (hu : u.kind ≠ .endOfInput)
    (hconcluded : Pull.Concluded (p :: more)) (hframes : ∀ a ∈ p :: more, 0 < a.frames)
    (hahead : r.source.ahead = more) (hahead' : r'.source.ahead = more.map (Pull.shift δ))
    (hcurrent : r.source.current? = some u) (hcurrent' : r'.source.current? = some (u.shift δ))
    {idle idle' : Int} (hfinal : r.source.final = (startOfPulls (p :: more) idle).source.final)
    (hfinal' : r'.source.final =
      (startOfPulls (front ++ q :: more.map (Pull.shift δ)) idle').source.final) :
    Abreast (belowParse δ) [] [] r r' := by
  have hpaired : List.Forall₂ (Pull.Paired (belowParse δ)) (p :: more)
      ((p :: more).map (Pull.shift δ)) := by
    rw [List.forall₂_map_right_iff]
    exact List.forall₂_same.mpr fun a ha => a.paired_below δ (hframes a ha)
  have hends : EndsAtSentinel u more := hconcluded.endsAtSentinel hp
  have hne : more ≠ [] := by
    rintro rfl
    exact hu hends
  obtain ⟨init, z, rfl⟩ := (List.eq_nil_or_concat more).resolve_left hne
  rw [List.concat_eq_append] at *
  obtain ⟨hlast, hkind⟩ := hconcluded.final hpaired (.ofToken { kind := .endOfInput, line := 1 })
    (.ofToken { kind := .endOfInput, line := 1 })
  have hrepeats : ∀ ps : List Pull,
      (startOfPulls (ps ++ [z.shift δ]) idle').source.final = z.shift δ :=
    fun ps => List.getLastD_concat
  have hz : r'.source.final = ((p :: (init ++ [z])).map (Pull.shift δ)).getLastD
      (.ofToken { kind := .endOfInput, line := 1 }) := by
    rw [hfinal', List.map_cons, List.map_append, List.map_singleton, ← List.cons_append,
      ← List.append_assoc, hrepeats, ← List.cons_append, List.getLastD_concat]
  refine ⟨init ++ [z], (init ++ [z]).map (Pull.shift δ), u, u.shift δ, by rw [hahead, List.append_nil],
    by rw [hahead', List.append_nil], (List.forall₂_cons.mp hpaired).2, hcurrent, hcurrent', rfl,
    .inr ⟨rfl, rfl, hends, ?_⟩⟩
  rw [hz, hfinal]
  exact ⟨hlast, hkind⟩

section Behind

variable {line : Int} {ns : List Node} {rounds : List Pull} {q : Pull} {qs : List Pull}
  (hahead : s.source.ahead = q :: qs) (hrounds : qs.length ≤ rounds.length)

include hahead

/-- What fails behind the last semicolon, fails for both. -/
theorem goOn_of_error {failure : Failure} (hq : q.outcome = .error failure) :
    ∃ s₁, goOn d line ns rounds s = .error failure s₁ := by
  have hpull : s.source.pull = q := pull_of_ahead hahead
  obtain ⟨s₁, hskip⟩ := skip_failure (s := s) (hpull ▸ hq)
  exact ⟨s₁, by rw [goOn, bind_of_error hskip]⟩

/-- Behind the last semicolon the sentinel ends the program. -/
theorem goOn_of_end {e : Token} (hq : q.outcome = .ok e) (he : e.kind = .endOfInput) (hqs : qs = [])
    (hfinal : s.source.final = q) :
    ∃ s₁, goOn d line ns rounds s = .ok ⟨.program line ns⟩ s₁ := by
  have hpull : s.source.pull = q := pull_of_ahead hahead
  obtain ⟨s₁, hskip, hahead₁, hcurrent₁, hfinal₁⟩ := skip_token (s := s) (hpull ▸ hq)
  have hpull₁ : s₁.source.pull = q := by
    rw [TokenSource.pull, hahead₁, hahead, List.tail_cons, hqs, hfinal₁, hfinal]
    rfl
  obtain ⟨s₂, hskip₂, -⟩ := skip_token (s := s₁) (hpull₁ ▸ hq)
  have hexpect : expect .endOfInput .endOfInput s₁ = .ok e s₂ := by
    rw [expect_of_current? hcurrent₁ he, bind_of_ok hskip₂]
    rfl
  rw [goOn, bind_of_ok hskip, bind_of_ok (statements_of_current? hcurrent₁ he d rounds),
    List.append_nil, finish, bind_of_ok hexpect]
  exact ⟨_, rfl⟩

include hrounds in
/-- Behind the last semicolon a program further down adds its statements, or has its own error. -/
theorem goOn_below {δ : Int} {p : Pull} {more front : List Pull} {u : Token} (hp : p.outcome = .ok u)
    (hu : u.kind ≠ .endOfInput) (hconcluded : Pull.Concluded (p :: more))
    (hframes : ∀ a ∈ p :: more, 0 < a.frames) (hq : q.outcome = .ok (u.shift δ))
    (hqs : qs = more.map (Pull.shift δ)) (idle : Int) {idle' : Int}
    (hfinal : s.source.final = (startOfPulls (front ++ q :: qs) idle').source.final) :
    (∃ l ms s₁ s₁', wholeProgram d (startOfPulls (p :: more) idle) = .ok ⟨.program l ms⟩ s₁ ∧
      goOn d line ns rounds s = .ok ⟨.program line (ns ++ ms.map (Node.shift δ))⟩ s₁') ∨
    ∃ failure s₁ s₁', wholeProgram d (startOfPulls (p :: more) idle) = .error failure s₁ ∧
      goOn d line ns rounds s = .error (failure.shift δ) s₁' := by
  have hpull : s.source.pull = q := pull_of_ahead hahead
  obtain ⟨r, hskip, hahead₁, hcurrent, hfinal₁⟩ :=
    skip_token (s := startOfPulls (p :: more) idle) (t := u) hp
  obtain ⟨r', hskip', hahead', hcurrent', hfinal'⟩ := skip_token (s := s) (hpull ▸ hq)
  rw [hahead, List.tail_cons] at hahead'
  have habreast : Abreast (belowParse δ) [] [] r r' :=
    abreast_below hp hu hconcluded hframes hahead₁ (hahead'.trans hqs) hcurrent hcurrent' hfinal₁
      (hqs ▸ hfinal'.trans hfinal)
  have hlength : r'.source.ahead.length ≤ rounds.length := by rw [hahead']; exact hrounds
  have hloop := programStatements_tracks_statements (Pairing.strict_rooms d) rounds habreast hcurrent
    hu hlength
  have htracks := hloop.bind fun ms ms' r₁ r₁' _ hms h₁ =>
    finish_tracks u.line line ns hms [] [] r₁ r₁' h₁
  have hbody : programBody d r = (programStatements d >>= fun ms => finish u.line ms) r := by
    rw [programBody, bind_of_ok (currentLine_of_current? hcurrent)]
    rfl
  rw [wholeProgram_eq, bind_of_ok hskip, hbody, goOn, bind_of_ok hskip']
  rcases htracks.closed with
    ⟨_, _, r₁, r₁', hrun, hrun', ⟨ms, ms', rfl, rfl, hms⟩, -⟩ | ⟨failure, r₁, hrun, halike⟩
  · have hms' := eq_map_of_forall₂ (hms.imp fun _ _ => Node.RelatedBy.eq_shift)
    rw [hms'] at hrun'
    exact .inl ⟨u.line, ms, r₁, r₁', hrun, hrun'⟩
  · cases halike with
    | @reading f' r₁' hrun' hf' =>
      obtain rfl : f' = failure.shift δ := hf'
      exact .inr ⟨failure, r₁, r₁', hrun, hrun'⟩
    | depth hroomier => exact hroomier.elim
    | @complaint complaint a a' r₁' hf hrun' ha _ =>
      obtain rfl : a' = a.shift δ := ha
      rw [complaint.about_shift, ← hf] at hrun'
      exact .inr ⟨failure, r₁, r₁', hrun, hrun'⟩

end Behind

end Parse

/-! ## Texts -/

section Texts

variable {room : Nat} {s : String} {us : List Token} {tree : SyntaxTree}
  (hs : tokenize s = .ok us) (htree : (parseText room s).outcome = .ok tree)

include hs htree

/-- A parse of a program with a text below it comes to the statements of the program, and goes on
with the pulls of the text, further down. The first of them takes other frames than on its own. -/
theorem parseText_leads (t : String) :
    ∃ l ns s₂ rounds front p more q, tree = ⟨.program l ns⟩ ∧ (Cursor.start t).pulls = p :: more ∧
      q.outcome = (p.shift (lineAt s.toList)).outcome ∧
      s₂.source.ahead = q :: more.map (Pull.shift (lineAt s.toList)) ∧
      s₂.source.final = (Parse.startOfPulls
        (front ++ q :: more.map (Pull.shift (lineAt s.toList))) 1).source.final ∧
      (more.map (Pull.shift (lineAt s.toList))).length ≤ rounds.length ∧
      Parse.wholeProgram (factorRoom room) { source := .ofText (s ++ "\n" ++ t) } =
        Parse.goOn (factorRoom room) l ns rounds s₂ := by
  obtain ⟨us', hus', hparse⟩ := tokenize_of_parseText htree
  rw [hs] at hus'
  injection hus' with hus'
  subst hus'
  have hbrings : Brings (Cursor.start s).pulls us := (Pull.tokens_eq_ok_iff _ _).mp hs
  obtain ⟨ws, e, rfl, hws, he⟩ := Cursor.brings_pulls hbrings
  obtain ⟨front, last, p, more, frames, hfront, hupper, hlower, hboth⟩ := pulls_concat hs t
  rw [List.dropLast_concat] at hfront
  rw [hupper] at hbrings
  have hne : ws ≠ [] := by
    obtain ⟨first, _, hfirst, -⟩ := derives_of_parseTokens hparse
    rintro rfl
    rw [List.nil_append, beforeEnd_end he] at hfirst
    cases hfirst
  have hlast : last.outcome = .ok e := by
    obtain ⟨front', last', hsplit, hlast⟩ := hbrings.last
    obtain ⟨-, ⟨⟩⟩ := List.append_inj' hsplit rfl
    exact hlast
  have hpos : ∀ a ∈ front ++ [last], 0 < a.frames := hupper ▸ fun a ha => Cursor.frames_pos ha
  obtain ⟨s₁, hrun⟩ := run_of_parseSource htree
  have hstart : ({ source := .ofText s } : ParseState) = Parse.startOfPulls (front ++ [last]) 1 := by
    rw [← hupper]
    rfl
  rw [hstart] at hrun
  let q : Pull := { p with frames }.shift (lineAt s.toList)
  obtain ⟨l, ns, s₂, rounds, htree, hahead, hfinal, hrounds, hleads⟩ :=
    Parse.wholeProgram_leads hfront hws hne hlast he hpos 1 hrun q
      (more.map (Pull.shift (lineAt s.toList)))
  have hjoint : (Cursor.start (s ++ "\n" ++ t)).pulls =
      front ++ q :: more.map (Pull.shift (lineAt s.toList)) := hboth
  rw [← hjoint] at hleads
  exact ⟨l, ns, s₂, rounds, front, p, more, q, htree, hlower, rfl, hahead, hfinal, hrounds, hleads⟩

/-- A text behind a program adds its statements to it, or nothing, or has its own error. -/
theorem parseText_below (t : String) :
    ∃ l ns, tree = ⟨.program l ns⟩ ∧
      (¬ Trivia t.toList [] →
        (∃ l' ms, (parseText room t).outcome = .ok ⟨.program l' ms⟩ ∧
          (parseText room (s ++ "\n" ++ t)).outcome =
            .ok ⟨.program l (ns ++ ms.map (Node.shift (lineAt s.toList)))⟩) ∨
        ∃ f, (parseText room t).outcome = .error f ∧
          (parseText room (s ++ "\n" ++ t)).outcome = .error (f.shift (lineAt s.toList))) ∧
      (Trivia t.toList [] → (parseText room (s ++ "\n" ++ t)).outcome = .ok tree) := by
  obtain ⟨l, ns, s₂, rounds, front, p, more, q, rfl, hlower, hq, hahead, hfinal, hrounds, hleads⟩ :=
    parseText_leads hs htree t
  have hok : ∀ {tree s₃}, Parse.goOn (factorRoom room) l ns rounds s₂ = .ok tree s₃ →
      (parseText room (s ++ "\n" ++ t)).outcome = .ok tree := fun h =>
    parseText_of_ok (hleads.trans h)
  have herror : ∀ {failure s₃}, Parse.goOn (factorRoom room) l ns rounds s₂ = .error failure s₃ →
      (parseText room (s ++ "\n" ++ t)).outcome = .error failure := fun h =>
    parseText_of_error (hleads.trans h)
  refine ⟨l, ns, rfl, fun ht => ?_, fun ht => ?_⟩
  · cases hp : p.outcome with
    | error failure =>
      obtain ⟨s₃, hgoOn⟩ := Parse.goOn_of_error hahead (hq.trans (Pull.shift_error hp))
      exact .inr ⟨failure, parseText_of_first_failing hlower hp, herror hgoOn⟩
    | ok u =>
      have hu : u.kind ≠ .endOfInput := by
        intro hu
        have hlower' : (Cursor.start t).pulls = [] ++ p :: more := hlower
        have hmore : more = [] := (Cursor.pulls_sentinel hlower' hp).mp hu
        refine ht (trivia_of_tokenize (e := u) ?_)
        rw [tokenize, hlower, hmore]
        exact (Pull.tokens_eq_ok_iff _ _).mpr (.cons hp .nil)
      rcases Parse.goOn_below hahead hrounds hp hu (hlower ▸ Cursor.pulls_concluded _)
          (hlower ▸ fun a ha => Cursor.frames_pos ha) (hq.trans (Pull.shift_ok hp)) rfl 1 hfinal with
        ⟨l', ms, s₃, s₃', hrun', hgoOn⟩ | ⟨failure, s₃, s₃', hrun', hgoOn⟩
      · exact .inl ⟨l', ms, parseText_of_ok (hlower ▸ hrun'), hok hgoOn⟩
      · exact .inr ⟨failure, parseText_of_error (hlower ▸ hrun'), herror hgoOn⟩
  · obtain ⟨e', hts, he'⟩ := tokenize_of_trivia ht
    have hbrings : Brings (p :: more) [e'] := hlower ▸ (Pull.tokens_eq_ok_iff _ _).mp hts
    cases hbrings with
    | cons hp hmore =>
      cases hmore
      have hrepeats : s₂.source.final = q := by
        rw [hfinal]
        simp [Parse.startOfPulls, TokenSource.ofPulls]
      obtain ⟨s₃, hgoOn⟩ := Parse.goOn_of_end hahead (hq.trans (Pull.shift_ok hp)) he' rfl hrepeats
      exact hok hgoOn

end Texts

/-- A text below one that becomes tokens brings its own tokens or its own error, on lines further
down. Below a program it adds its statements, or nothing if it is only trivia, or it has its own
error. -/
theorem parseText_concat {s : String} {us : List Token} (hs : tokenize s = .ok us) (t : String) :
    (∀ ts, tokenize t = .ok ts → tokenize (s ++ "\n" ++ t) =
      .ok (us.dropLast ++ ts.map (Token.shift (lineAt s.toList)))) ∧
    (∀ f, tokenize t = .error f →
      tokenize (s ++ "\n" ++ t) = .error (f.shift (lineAt s.toList))) ∧
    ∀ room tree, (parseText room s).outcome = .ok tree → ∃ l ns, tree = ⟨.program l ns⟩ ∧
      (¬ Trivia t.toList [] →
        (∀ tree', (parseText room t).outcome = .ok tree' → ∃ l' ms, tree' = ⟨.program l' ms⟩ ∧
          (parseText room (s ++ "\n" ++ t)).outcome =
            .ok ⟨.program l (ns ++ ms.map (Node.shift (lineAt s.toList)))⟩) ∧
        ∀ f, (parseText room t).outcome = .error f →
          (parseText room (s ++ "\n" ++ t)).outcome = .error (f.shift (lineAt s.toList))) ∧
      (Trivia t.toList [] → (parseText room (s ++ "\n" ++ t)).outcome = .ok tree) := by
  obtain ⟨htokens, hfailure⟩ := tokenize_concat hs t
  refine ⟨htokens, hfailure, fun room tree htree => ?_⟩
  obtain ⟨l, ns, heq, hbelow, htrivia⟩ := parseText_below hs htree t
  refine ⟨l, ns, heq, fun ht => ?_, htrivia⟩
  rcases hbelow ht with ⟨l', ms, hok, hok'⟩ | ⟨f, herror, herror'⟩
  · constructor
    · intro tree' htree'
      rw [hok] at htree'
      injection htree' with htree'
      exact ⟨l', ms, htree'.symm, hok'⟩
    · intro f hf
      rw [hok] at hf
      cases hf
  · constructor
    · intro tree' htree'
      rw [herror] at htree'
      cases htree'
    · intro g hg
      rw [herror] at hg
      injection hg with hg
      exact hg ▸ herror'

/-- A program whose last comment is open. -/
def upperText : String := "a; # one"

/-- The tokens of the program. -/
def upperTokens : List Token :=
  [⟨.ident, .text "a", 1, 1⟩, ⟨.semicolon, .text ";", 1, 2⟩, ⟨.endOfInput, .none, 1, 9⟩]

/-- Another program. -/
def lowerText : String := "b;"

set_option maxRecDepth 100000 in
/-- The second program is not in the comment of the first. -/
theorem sampleTexts_concatenate :
    tokenize upperText = .ok upperTokens ∧
    (parseText 40 upperText).outcome = .ok ⟨.program 1 [.leaf 1 ⟨.ident, .text "a", 1, 1⟩]⟩ ∧
    (parseText 40 lowerText).outcome = .ok ⟨.program 1 [.leaf 1 ⟨.ident, .text "b", 1, 1⟩]⟩ ∧
    ¬ Trivia lowerText.toList [] ∧
    (parseText 40 (upperText ++ "\n" ++ lowerText)).outcome = .ok ⟨.program 1
      [.leaf 1 ⟨.ident, .text "a", 1, 1⟩, .leaf 2 ⟨.ident, .text "b", 2, 1⟩]⟩ := by
  have hupper : tokenize upperText = .ok upperTokens := by cbv
  have htree : (parseText 40 upperText).outcome =
      .ok ⟨.program 1 [.leaf 1 ⟨.ident, .text "a", 1, 1⟩]⟩ := by cbv
  have hlower : (parseText 40 lowerText).outcome =
      .ok ⟨.program 1 [.leaf 1 ⟨.ident, .text "b", 1, 1⟩]⟩ := by cbv
  have htokens : tokenize lowerText = .ok [⟨.ident, .text "b", 1, 1⟩,
      ⟨.semicolon, .text ";", 1, 2⟩, ⟨.endOfInput, .none, 1, 3⟩] := by cbv
  have hnot : ¬ Trivia lowerText.toList [] := by
    intro h
    obtain ⟨e, he, -⟩ := tokenize_of_trivia h
    rw [htokens] at he
    injection he with he
    injection he with _ hnil
    cases hnil
  obtain ⟨-, -, hparse⟩ := parseText_concat hupper lowerText
  obtain ⟨l, ns, heq, hbelow, -⟩ := hparse _ _ htree
  obtain ⟨l', ms, heq', hboth⟩ := (hbelow hnot).1 _ hlower
  injection heq with heq
  injection heq with hl hns
  injection heq' with heq'
  injection heq' with _ hms
  rw [← hl, ← hns, ← hms] at hboth
  exact ⟨hupper, htree, hlower, hnot, hboth⟩

end MflFrontend
