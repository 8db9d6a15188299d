import MflFrontend.Proofs.Grammar.Laws
import Mathlib.Data.List.Forall2

/-!
# Two parses in lockstep

A parse decides by the kind of its current token and by whether there is room, and sees no pull
before it asks for it. Two parses that are given corresponding tokens therefore do the same, up to
the point where the first asks for a pull that the two do not share; there it fails if that pull
does. If the two share everything down to a sentinel that both repeat, there is no such point.
`Tracks` states this of two steps, and is closed under sequencing; the loops are compared while both
bounds on their rounds still count.

The second parse may be roomier. Then the first may complain about depth where the second goes on,
and nothing is said of what follows. Otherwise both have the same room for readings that take the
same.
-/

namespace MflFrontend

/-- Two nodes of one shape with the same operators, whose lines and tokens are related. -/
inductive Node.Related (L : Int → Int → Prop) (R : Token → Token → Prop) : Node → Node → Prop where
  /-- Leaves with related tokens. -/
  | leaf {l l' : Int} {t t' : Token} (hl : L l l') (ht : R t t') :
      Related L R (.leaf l t) (.leaf l' t')
  /-- Negations of related operands. -/
  | unary {l l' : Int} {n n' : Node} (op : TokenKind) (hl : L l l') (hn : Related L R n n') :
      Related L R (.unary l n op) (.unary l' n' op)
  /-- Operations on related operands. -/
  | binary {l l' : Int} {a a' b b' : Node} (op : TokenKind) (hl : L l l') (ha : Related L R a a')
      (hb : Related L R b b') : Related L R (.binary l a b op) (.binary l' a' b' op)
  /-- Comparisons of related operands. -/
  | relation {l l' : Int} {a a' b b' : Node} (op : TokenKind) (hl : L l l') (ha : Related L R a a')
      (hb : Related L R b b') : Related L R (.relation l a b op) (.relation l' a' b' op)

/-- Two lines of related tokens. -/
def LineRelated (R : Token → Token → Prop) (l l' : Int) : Prop :=
  ∃ t t', R t t' ∧ l = t.line ∧ l' = t'.line

/-- Two nodes of one shape with related tokens, on lines of related tokens. -/
abbrev Node.RelatedBy (R : Token → Token → Prop) : Node → Node → Prop :=
  Node.Related (LineRelated R) R

/-- Two programs with related statements. -/
def SyntaxTree.RelatedBy (R : Token → Token → Prop) (tree tree' : SyntaxTree) : Prop :=
  ∃ l l' ns ns', tree = ⟨.program l ns⟩ ∧ tree' = ⟨.program l' ns'⟩ ∧ LineRelated R l l' ∧
    List.Forall₂ (Node.RelatedBy R) ns ns'

/-- What two parses are given that go in lockstep. -/
structure Pairing where
  /-- The tokens that correspond. -/
  token : Token → Token → Prop
  /-- They are of one kind. -/
  kind_eq : ∀ {t t' : Token}, token t t' → t.kind = t'.kind
  /-- The failures of readings that correspond. -/
  failure : Failure → Failure → Prop
  /-- How many frames more a reading of the second parse may take. -/
  slack : Nat
  /-- The second parse may have room where the first has none. -/
  roomier : Prop

namespace Pairing

variable (K : Pairing)

/-- Both readings take something, and the second takes little more than the first, or exactly as
much. -/
def Frames (n n' : Nat) : Prop := 0 < n ∧ n' ≤ n + K.slack ∧ (K.roomier ∨ n = n')

/-- The second room has place for what the second reading may take more, or the rooms are the
same. -/
def Rooms (room room' : Nat) : Prop := room + K.slack ≤ room' ∧ (K.roomier ∨ room = room')

/-- What fits into the first room fits into the second, or the rooms are the same. -/
def Holds (room room' : Nat) : Prop :=
  (∀ n n', K.Frames n n' → n ≤ room → n' ≤ room') ∧ (K.roomier ∨ room = room')

variable {K} {n n' room room' : Nat}

theorem frames_self (hn : 0 < n) : K.Frames n n := ⟨hn, Nat.le_add_right n _, .inr rfl⟩

theorem Rooms.add (h : K.Rooms room room') (c : Nat) : K.Rooms (room + c) (room' + c) := by
  obtain ⟨hle, heq⟩ := h
  exact ⟨by omega, heq.imp_right fun heq => by rw [heq]⟩

theorem Rooms.sub (h : K.Rooms (room + n) (room' + n)) : K.Rooms room room' := by
  obtain ⟨hle, heq⟩ := h
  exact ⟨by omega, heq.imp_right Nat.add_right_cancel⟩

theorem Rooms.holds (h : K.Rooms room room') : K.Holds room room' := by
  obtain ⟨hle, heq⟩ := h
  refine ⟨fun n n' hframes hn => ?_, heq⟩
  obtain ⟨-, hmore, -⟩ := hframes
  omega

theorem Rooms.holds_pred (h : K.Rooms room room') : K.Holds (room - 1) (room' - 1) := by
  obtain ⟨hle, heq⟩ := h
  refine ⟨fun n n' hframes hn => ?_, heq.imp_right fun heq => by rw [heq]⟩
  obtain ⟨hpos, hmore, -⟩ := hframes
  omega

/-- Unless the second parse is roomier, it is as full as the first. -/
theorem Holds.full (h : K.Holds room room') (hframes : K.roomier ∨ n = n') (hn : room < n) :
    K.roomier ∨ room' < n' := by
  rcases h.2 with hroomier | rfl
  · exact .inl hroomier
  · exact hframes.imp_right fun heq => by omega

/-- Parses that have the same room, of pulls that take as much. -/
def strict (token : Token → Token → Prop) (kind_eq : ∀ {t t' : Token}, token t t' → t.kind = t'.kind)
    (failure : Failure → Failure → Prop) : Pairing :=
  ⟨token, kind_eq, failure, 0, False⟩

theorem strict_rooms {token : Token → Token → Prop}
    {kind_eq : ∀ {t t' : Token}, token t t' → t.kind = t'.kind} {failure : Failure → Failure → Prop}
    (d : Nat) : (strict token kind_eq failure).Rooms d d := ⟨Nat.le_refl d, .inr rfl⟩

/-- Parses of the same tokens of which the second is roomier, and may take some frames more in a
pull. -/
def roomy (failure : Failure → Failure → Prop) (slack : Nat) : Pairing :=
  ⟨Eq, congrArg Token.kind, failure, slack, True⟩

end Pairing

/-- Two pulls that bring corresponding tokens, or fail correspondingly. -/
structure Pull.Paired (K : Pairing) (p p' : Pull) : Prop where
  /-- What they bring. -/
  outcome : (∃ t t', p.outcome = .ok t ∧ p'.outcome = .ok t' ∧ K.token t t') ∨
    ∃ f f', p.outcome = .error f ∧ p'.outcome = .error f' ∧ K.failure f f'
  /-- What they take. -/
  frames : K.Frames p.frames p'.frames

/-- The last token that the pulls bring behind `t` is the sentinel, if none of them fails. -/
def EndsAtSentinel (t : Token) : List Pull → Prop
  | [] => t.kind = .endOfInput
  | p :: ps => ∀ u, p.outcome = .ok u → EndsAtSentinel u ps

/-- What lies behind the shared pulls: on both sides pulls that are not shared, of which the second
may lack them if a sentinel was the last to be shared; or on both sides nothing but a sentinel or a
failure that repeats. The first pulls that are not shared take as much, unless the second parse is
roomier. -/
def Frontier (K : Pairing) (v v' : List Pull) (t : Token) (us : List Pull) (final final' : Pull) :
    Prop :=
  (v ≠ [] ∧ (v' ≠ [] ∨ EndsAtSentinel t us) ∧
      (K.roomier ∨ (v.headD final).frames = (v'.headD final').frames)) ∨
    (v = [] ∧ v' = [] ∧ EndsAtSentinel t us ∧ Pull.Paired K final final' ∧
      ∀ e, final.outcome = .ok e → e.kind = .endOfInput)

/-- Two parses before corresponding tokens, with corresponding pulls to come up to `v` and `v'`. -/
def Abreast (K : Pairing) (v v' : List Pull) (s s' : ParseState) : Prop :=
  ∃ us us' t t', s.source.ahead = us ++ v ∧ s'.source.ahead = us' ++ v' ∧
    List.Forall₂ (Pull.Paired K) us us' ∧ s.source.current? = some t ∧
    s'.source.current? = some t' ∧ K.token t t' ∧
    Frontier K v v' t us s.source.final s'.source.final

section

variable {K : Pairing} {v v' : List Pull} {s s' : ParseState}

/-- The lengths of what is to come differ by what is not shared. -/
theorem Abreast.length (h : Abreast K v v' s s') :
    s.source.ahead.length + v'.length = s'.source.ahead.length + v.length ∧
      v.length ≤ s.source.ahead.length := by
  obtain ⟨us, us', t, t', hs, hs', hus, -, -, -, -⟩ := h
  have hlen := hus.length_eq
  rw [hs, hs', List.length_append, List.length_append]
  omega

/-- Where nothing is to come on one side, both stand before the sentinel. -/
theorem Abreast.at_end (h : Abreast K v v' s s')
    (hnil : s.source.ahead = [] ∨ s'.source.ahead = []) :
    ∃ t t', s.source.current? = some t ∧ s'.source.current? = some t' ∧
      t.kind = .endOfInput ∧ t'.kind = .endOfInput := by
  obtain ⟨us, us', t, t', hs, hs', hus, ht, ht', hR, hfrontier⟩ := h
  have hus_nil : us = [] := by
    rcases hnil with hnil | hnil
    · rw [hnil] at hs
      exact (List.append_eq_nil_iff.mp hs.symm).1
    · rw [hnil] at hs'
      have hlen := hus.length_eq
      rw [(List.append_eq_nil_iff.mp hs'.symm).1] at hlen
      exact List.eq_nil_of_length_eq_zero hlen
  have hend : EndsAtSentinel t us := by
    rcases hfrontier with ⟨hv, hv' | hend, -⟩ | ⟨-, -, hend, -⟩
    · rcases hnil with hnil | hnil
      · rw [hnil] at hs
        exact absurd (List.append_eq_nil_iff.mp hs.symm).2 hv
      · rw [hnil] at hs'
        exact absurd (List.append_eq_nil_iff.mp hs'.symm).2 hv'
    · exact hend
    · exact hend
  rw [hus_nil] at hend
  have hkind_end : t.kind = .endOfInput := hend
  exact ⟨t, t', ht, ht', hkind_end, K.kind_eq hR ▸ hkind_end⟩

end

namespace Parse

variable {α β γ δ : Type}

/-! ## Nothing that was taken comes back -/

/-- Moving on takes one pull, whatever it brings. -/
theorem skip_ahead (s : ParseState) :
    skip.Yields s (fun _ s' => s'.source.ahead = s.source.ahead.tail)
      (fun _ s' => s'.source.ahead = s.source.ahead.tail) := by
  cases hpull : s.source.pull.outcome with
  | ok t => exact Yields.of_ok (skip_of_ok hpull) rfl
  | error failure => exact Yields.of_error (skip_of_error hpull) rfl

theorem pull_of_ahead {s : ParseState} {p : Pull} {ps : List Pull} (h : s.source.ahead = p :: ps) :
    s.source.pull = p := by
  rw [TokenSource.pull, h]
  rfl

/-- Moving on to a token. -/
theorem skip_token {s : ParseState} {t : Token} (hp : s.source.pull.outcome = .ok t) :
    ∃ s₁, skip s = .ok () s₁ ∧ s₁.source.ahead = s.source.ahead.tail ∧
      s₁.source.current? = some t ∧ s₁.source.final = s.source.final := by
  refine ⟨{ s with source := s.source.next.2 }, skip_of_ok hp, rfl, ?_, rfl⟩
  simp [TokenSource.next, hp]

/-- Moving on to a failure. -/
theorem skip_failure {s : ParseState} {failure : Failure}
    (hp : s.source.pull.outcome = .error failure) : ∃ s₁, skip s = .error failure s₁ :=
  ⟨_, skip_of_error hp⟩

/-- The pulls to come are no more than before. -/
def Law.shrinking : Law where
  good s s' := s'.source.ahead.length ≤ s.source.ahead.length
  bad s _ s' := s'.source.ahead.length ≤ s.source.ahead.length
  refl _ := Nat.le_refl _
  trans h h' := Nat.le_trans h' h
  trans_bad h h' := Nat.le_trans h' h

/-- A step leaves no more pulls to come than there were. -/
abbrev Shrinks (m : Parse α) : Prop := Obeys .shrinking m

theorem Shrinks.length_le (m : Parse α) [h : Shrinks m] (s : ParseState) :
    m.Yields s (fun _ s' => s'.source.ahead.length ≤ s.source.ahead.length)
      fun _ s' => s'.source.ahead.length ≤ s.source.ahead.length :=
  h.yields s

namespace Shrinks

instance record (r : LogRecord) : Shrinks (Parse.record r) :=
  ⟨fun s => Yields.of_ok (u := { s with log := s.log ++ [r] }) rfl (Nat.le_refl _)⟩

instance throw (failure : Failure) : Shrinks (throw failure : Parse α) :=
  ⟨fun s => Yields.of_error (u := s) rfl (Nat.le_refl _)⟩

instance current : Shrinks Parse.current := by
  constructor
  intro s
  unfold Yields Parse.current
  cases s.source.current <;> exact Nat.le_refl _

instance reject (complaint : Complaint) : Shrinks (Parse.reject complaint : Parse α) := by
  constructor
  intro s
  cases ht : s.source.current? with
  | none => exact Yields.of_error (reject_of_none ht complaint) (Nat.le_refl _)
  | some t => exact Yields.of_error (reject_of_current? ht complaint) (Nat.le_refl _)

instance primitive : Law.shrinking.Primitive where
  current := current
  skip := by
    constructor
    intro s
    have hlen : ∀ s', s'.source.ahead = s.source.ahead.tail → Law.shrinking.good s s' := by
      intro s' h
      show s'.source.ahead.length ≤ s.source.ahead.length
      rw [h, List.length_tail]
      omega
    exact (skip_ahead s).mono (fun _ => hlen) fun _ => hlen
  reject complaint _ := reject complaint

end Shrinks

theorem expect_takes (kind : TokenKind) (what : Expectation) (s : ParseState) :
    (expect kind what).Yields s
      (fun _ s' => s'.source.ahead.length ≤ s.source.ahead.length - 1) fun _ _ => True := by
  refine Yields.bind (Shrinks.length_le current s) (fun _ _ _ => trivial) fun t s₁ hs₁ => ?_
  split
  · refine Yields.bind (skip_ahead s₁) (fun _ _ _ => trivial) fun _ s₂ hs₂ => ?_
    refine Yields.of_ok rfl ?_
    rw [hs₂, List.length_tail]
    omega
  · exact (reject_fails _ s₁).mono (fun _ _ h => h.elim) fun _ _ _ => trivial

/-- A closed statement takes at least its semicolon. -/
theorem closedStatement_takes (d : Nat) (s : ParseState) :
    (closedStatement d).Yields s
      (fun _ s' => s'.source.ahead.length ≤ s.source.ahead.length - 1) fun _ _ => True := by
  refine Yields.bind (Shrinks.length_le (statement d) s) (fun _ _ _ => trivial) fun n s₁ hs₁ => ?_
  refine Yields.bind (expect_takes .semicolon .semicolon s₁) (fun _ _ _ => trivial) fun _ s₂ hs₂ => ?_
  exact Yields.of_ok (u := s₂) rfl (by omega)

/-! ## Steps that go in lockstep -/

/-- A parse has been given a token by the first of the pulls `v`. -/
def Beyond (v : List Pull) (s : ParseState) : Prop :=
  s.source.ahead.length < v.length ∧ ∃ p t, v.head? = some p ∧ p.outcome = .ok t

/-- The first of the pulls `v` fails. -/
def FailsNext (v : List Pull) (failure : Failure) : Prop :=
  ∃ p, v.head? = some p ∧ p.outcome = .error failure

/-- How a parse fails beside a result of the other, within what both share. -/
inductive FailsAlike (K : Pairing) (v v' : List Pull) (failure : Failure) (s : ParseState)
    (r' : EStateM.Result Failure ParseState β) : Prop where
  /-- Both fail with corresponding pulls. -/
  | reading {failure' : Failure} {s' : ParseState} (h : r' = .error failure' s')
      (hfailure : K.failure failure failure')
  /-- The first complains about depth, and the second is roomier. -/
  | depth {t : Token} (hroomier : K.roomier) (h : failure = Complaint.nestedTooDeeply.about t)
  /-- Both complain of corresponding tokens in the same words. -/
  | complaint {complaint : Complaint} {t t' : Token} {s' : ParseState}
      (h : failure = complaint.about t) (h' : r' = .error (complaint.about t') s')
      (ht : K.token t t') (habreast : Abreast K v v' s s')

/-- How a parse may fail beside a result of the other. -/
inductive FailsBeside (K : Pairing) (v v' : List Pull) (failure : Failure) (s : ParseState)
    (r' : EStateM.Result Failure ParseState β) : Prop where
  /-- It went beyond what both share. -/
  | beyond (h : Beyond v s)
  /-- It failed with the first pull behind that. -/
  | next (h : FailsNext v failure)
  /-- It failed within what both share. -/
  | alike (h : FailsAlike K v v' failure s r')

variable (K : Pairing)

/-- What the first parse does from `s`, the second does from `s'`, as far as they share their pulls
and the first does not run out of depth before the second. -/
def TracksFrom (v v' : List Pull) (s s' : ParseState) (Q : α → β → Prop) (m : Parse α)
    (m' : Parse β) : Prop :=
  m.Yields s
    (fun a s₁ => Beyond v s₁ ∨ ∃ b s₁', m' s' = .ok b s₁' ∧ Q a b ∧ Abreast K v v' s₁ s₁')
    (fun failure s₁ => FailsBeside K v v' failure s₁ (m' s'))

/-- From wherever the two parses are abreast, the steps go in lockstep. -/
def Tracks (Q : α → β → Prop) (m : Parse α) (m' : Parse β) : Prop :=
  ∀ v v' s s', Abreast K v v' s s' → TracksFrom K v v' s s' Q m m'

variable {K} {v v' : List Pull} {s s' : ParseState} {Q : α → β → Prop} {Q' : γ → δ → Prop}
  {m : Parse α} {m' : Parse β} {k : α → Parse γ} {k' : β → Parse δ}

/-- What follows a step that failed does not matter. -/
theorem FailsAlike.bind {failure : Failure} {s₁ : ParseState}
    (h : FailsAlike K v v' failure s₁ (m' s')) :
    FailsAlike K v v' failure s₁ ((m' >>= k') s') := by
  cases h with
  | reading h hfailure => exact .reading (bind_of_error h) hfailure
  | depth hroomier h => exact .depth hroomier h
  | complaint h h' ht habreast => exact .complaint h (bind_of_error h') ht habreast

namespace TracksFrom

theorem of_ok {a : α} {b : β} {u w : ParseState} (hm : m s = .ok a u) (hm' : m' s' = .ok b w)
    (hQ : Q a b) (h : Abreast K v v' u w) : TracksFrom K v v' s s' Q m m' :=
  Yields.of_ok hm (.inr ⟨b, w, hm', hQ, h⟩)

/-- Steps that go in lockstep may follow each other. -/
theorem bind [∀ a, Shrinks (k a)] (h : TracksFrom K v v' s s' Q m m')
    (hk : ∀ a b s₁ s₁', m s = .ok a s₁ → Q a b → Abreast K v v' s₁ s₁' →
      TracksFrom K v v' s₁ s₁' Q' (k a) (k' b)) :
    TracksFrom K v v' s s' Q' (m >>= k) (m' >>= k') := by
  cases hm : m s with
  | ok a s₁ =>
    refine Yields.step hm ?_
    rcases h.good_of_ok hm with ⟨hlen, hbrings⟩ | ⟨b, s₁', hm', hQ, habreast⟩
    · refine (Shrinks.length_le (k a) s₁).mono (fun _ _ h => ?_) fun _ _ h => ?_
      · exact .inl ⟨Nat.lt_of_le_of_lt h hlen, hbrings⟩
      · exact .beyond ⟨Nat.lt_of_le_of_lt h hlen, hbrings⟩
    · have hnext := hk a b s₁ s₁' hm hQ habreast
      rw [bind_of_ok hm']
      exact hnext
  | error failure s₁ =>
    refine Yields.of_error (bind_of_error hm) ?_
    cases h.bad_of_error hm with
    | beyond h => exact .beyond h
    | next h => exact .next h
    | alike h => exact .alike h.bind

/-- Where the first step stays within what both share, both steps succeed or fail alike. -/
theorem within (h : TracksFrom K v v' s s' Q m m')
    (hbrings : ∀ p, v.head? = some p → ∃ t, p.outcome = .ok t)
    (hlength : m.Yields s (fun _ s₁ => v.length ≤ s₁.source.ahead.length)
      fun _ s₁ => v.length ≤ s₁.source.ahead.length) :
    (∃ a b s₁ s₁', m s = .ok a s₁ ∧ m' s' = .ok b s₁' ∧ Q a b ∧ Abreast K v v' s₁ s₁') ∨
    ∃ failure s₁, m s = .error failure s₁ ∧ FailsAlike K v v' failure s₁ (m' s') := by
  cases hm : m s with
  | ok a s₁ =>
    rcases h.good_of_ok hm with ⟨hlen, -⟩ | ⟨b, s₁', hm', hQ, habreast⟩
    · exact absurd hlen (Nat.not_lt.mpr (hlength.good_of_ok hm))
    · exact .inl ⟨a, b, s₁, s₁', rfl, hm', hQ, habreast⟩
  | error failure s₁ =>
    cases h.bad_of_error hm with
    | beyond hbeyond => exact absurd hbeyond.1 (Nat.not_lt.mpr (hlength.bad_of_error hm))
    | next hnext =>
      obtain ⟨p, hp, hfails⟩ := hnext
      obtain ⟨t, ht⟩ := hbrings p hp
      rw [ht] at hfails
      cases hfails
    | alike h => exact .inr ⟨failure, s₁, rfl, h⟩

/-- Where everything is shared, the first step stays within it. -/
theorem closed (h : TracksFrom K [] [] s s' Q m m') :
    (∃ a b s₁ s₁', m s = .ok a s₁ ∧ m' s' = .ok b s₁' ∧ Q a b ∧ Abreast K [] [] s₁ s₁') ∨
    ∃ failure s₁, m s = .error failure s₁ ∧ FailsAlike K [] [] failure s₁ (m' s') := by
  refine h.within (fun p hp => by cases hp) ?_
  unfold TracksFrom at h
  exact h.mono (fun _ _ _ => Nat.zero_le _) fun _ _ _ => Nat.zero_le _

/-- Of the second step only matters what it comes to. -/
theorem congr_right {u : ParseState} {l : Parse β} (h : TracksFrom K v v' s s' Q m m')
    (hm : m' s' = l u) : TracksFrom K v v' s u Q m l := by
  unfold TracksFrom at h ⊢
  rwa [hm] at h

end TracksFrom

namespace Tracks

/-- What the results have in common may be said more weakly. -/
theorem mono {Q₁ : α → β → Prop} (h : Tracks K Q m m') (hQ : ∀ a b, Q a b → Q₁ a b) :
    Tracks K Q₁ m m' := by
  intro v v' s s' habreast
  refine Yields.mono (h v v' s s' habreast) ?_ fun _ _ h => h
  rintro a s₁ (hbeyond | ⟨b, s₁', hm', hab, h₁⟩)
  · exact .inl hbeyond
  · exact .inr ⟨b, s₁', hm', hQ a b hab, h₁⟩

theorem pure {a : α} {b : β} (hQ : Q a b) : Tracks K Q (Pure.pure a) (Pure.pure b) :=
  fun _ _ s s' h => .of_ok (u := s) (w := s') rfl rfl hQ h

theorem bind [∀ a, Shrinks (k a)] (h : Tracks K Q m m')
    (hk : ∀ a b, Q a b → Tracks K Q' (k a) (k' b)) : Tracks K Q' (m >>= k) (m' >>= k') :=
  fun v v' s s' habreast =>
    (h v v' s s' habreast).bind fun a b s₁ s₁' _ hQ h₁ => hk a b hQ v v' s₁ s₁' h₁

theorem ite {c c' : Prop} [Decidable c] [Decidable c'] {m₁ m₂ : Parse α} {m₁' m₂' : Parse β}
    (hc : c ↔ c') (h₁ : Tracks K Q m₁ m₁') (h₂ : Tracks K Q m₂ m₂') :
    Tracks K Q (if c then m₁ else m₂) (if c' then m₁' else m₂') := by
  by_cases hcase : c
  · rw [if_pos hcase, if_pos (hc.mp hcase)]
    exact h₁
  · rw [if_neg hcase, if_neg (mt hc.mpr hcase)]
    exact h₂

theorem current : Tracks K K.token Parse.current Parse.current := by
  rintro v v' s s' habreast
  have ⟨_, _, t, t', _, _, _, ht, ht', hR, _⟩ := habreast
  exact .of_ok (current_of_current? ht) (current_of_current? ht') hR habreast

theorem currentLine : Tracks K (LineRelated K.token) Parse.currentLine Parse.currentLine := by
  rintro v v' s s' habreast
  have ⟨_, _, t, t', _, _, _, ht, ht', hR, _⟩ := habreast
  exact .of_ok (currentLine_of_current? ht) (currentLine_of_current? ht') ⟨t, t', hR, rfl, rfl⟩
    habreast

theorem record (r r' : LogRecord) :
    Tracks K (fun _ _ => True) (Parse.record r) (Parse.record r') := fun _ _ s s' h =>
  .of_ok (u := { s with log := s.log ++ [r] }) (w := { s' with log := s'.log ++ [r'] }) rfl rfl
    trivial h

/-- Moving on behind what both share: the first parse is given what its next pull brings. -/
theorem skip_beyond {Q : Unit → β → Prop} {p : Pull} (hs : s.source.ahead = v)
    (hp : v.head? = some p) : TracksFrom K v v' s s' Q Parse.skip m' := by
  have hpull : s.source.pull = p := by
    obtain ⟨ps, rfl⟩ := List.head?_eq_some_iff.mp hp
    rw [TokenSource.pull, hs]
    rfl
  cases houtcome : p.outcome with
  | ok t =>
    obtain ⟨s₁, hm, hs₁, -, -⟩ := skip_token (s := s) (t := t) (by rw [hpull, houtcome])
    refine Yields.of_ok hm (.inl ⟨?_, p, t, hp, houtcome⟩)
    obtain ⟨ps, rfl⟩ := List.head?_eq_some_iff.mp hp
    rw [hs₁, hs]
    exact Nat.lt_succ_self _
  | error failure =>
    obtain ⟨s₁, hm⟩ := skip_failure (s := s) (by rw [hpull, houtcome])
    exact Yields.of_error hm (.next ⟨p, hp, houtcome⟩)

/-- Moving on where both next pulls fail. -/
theorem skip_reading {Q : Unit → Unit → Prop} {f f' : Failure}
    (hf : s.source.pull.outcome = .error f) (hf' : s'.source.pull.outcome = .error f')
    (h : K.failure f f') : TracksFrom K v v' s s' Q Parse.skip Parse.skip := by
  obtain ⟨s₁, hm⟩ := skip_failure hf
  obtain ⟨s₁', hm'⟩ := skip_failure hf'
  exact Yields.of_error hm (.alike (.reading hm' h))

/-- Moving on by pulls that correspond, whatever is current. -/
theorem skip_paired {p p' : Pull} {us us' : List Pull} (hs : s.source.ahead = p :: (us ++ v))
    (hs' : s'.source.ahead = p' :: (us' ++ v')) (hp : p.Paired K p')
    (hus : List.Forall₂ (Pull.Paired K) us us')
    (hfrontier : ∀ t, p.outcome = .ok t → Frontier K v v' t us s.source.final s'.source.final) :
    TracksFrom K v v' s s' (fun _ _ => True) Parse.skip Parse.skip := by
  have hpull : s.source.pull = p := pull_of_ahead hs
  have hpull' : s'.source.pull = p' := pull_of_ahead hs'
  rcases hp.outcome with ⟨u, u', hu, hu', hRu⟩ | ⟨f, f', hf, hf', hfailure⟩
  · obtain ⟨s₁, hm, hs₁, hc₁, hf₁⟩ := skip_token (hpull ▸ hu)
    obtain ⟨s₁', hm', hs₁', hc₁', hf₁'⟩ := skip_token (hpull' ▸ hu')
    rw [hs] at hs₁
    rw [hs'] at hs₁'
    refine .of_ok hm hm' trivial ⟨us, us', u, u', hs₁, hs₁', hus, hc₁, hc₁', hRu, ?_⟩
    rw [hf₁, hf₁']
    exact hfrontier u hu
  · exact skip_reading (hpull ▸ hf) (hpull' ▸ hf') hfailure

/-- Moving on leads both before corresponding tokens, or the first beyond what they share. -/
theorem skip : Tracks K (fun _ _ => True) Parse.skip Parse.skip := by
  rintro v v' s s' ⟨us, us', t, t', hs, hs', hus, ht, ht', hR, hfrontier⟩
  cases hus with
  | nil =>
    rcases hfrontier with ⟨hv, -⟩ | ⟨rfl, rfl, hend, hfinal, hkind⟩
    · obtain ⟨p, ps, rfl⟩ := List.exists_cons_of_ne_nil hv
      exact skip_beyond hs rfl
    · -- both read their finals again
      have hpull : s.source.pull = s.source.final := by rw [TokenSource.pull, hs]; rfl
      have hpull' : s'.source.pull = s'.source.final := by rw [TokenSource.pull, hs']; rfl
      rcases hfinal.outcome with ⟨e, e', he, he', hRe⟩ | ⟨f, f', hf, hf', hfailure⟩
      · obtain ⟨s₁, hm, hs₁, hc₁, hf₁⟩ := skip_token (hpull ▸ he)
        obtain ⟨s₁', hm', hs₁', hc₁', hf₁'⟩ := skip_token (hpull' ▸ he')
        rw [hs] at hs₁
        rw [hs'] at hs₁'
        refine .of_ok hm hm' trivial ⟨[], [], e, e', hs₁, hs₁', .nil, hc₁, hc₁', hRe, ?_⟩
        rw [hf₁, hf₁']
        exact .inr ⟨rfl, rfl, hkind e he, hfinal, hkind⟩
      · exact skip_reading (hpull ▸ hf) (hpull' ▸ hf') hfailure
  | @cons p p' us us' hp hus =>
    refine skip_paired hs hs' hp hus fun u hu => ?_
    have hnext : EndsAtSentinel t (p :: us) → EndsAtSentinel u us := fun h => h u hu
    rcases hfrontier with ⟨hv, hv', hframes⟩ | ⟨hv, hv', hend, hfinal⟩
    · exact .inl ⟨hv, hv'.imp_right hnext, hframes⟩
    · exact .inr ⟨hv, hv', hnext hend, hfinal⟩

theorem reject {Q : α → β → Prop} (complaint : Complaint) :
    Tracks K Q (Parse.reject complaint) (Parse.reject complaint) := by
  rintro v v' s s' habreast
  have ⟨_, _, t, t', _, _, _, ht, ht', hR, _⟩ := habreast
  exact Yields.of_error (reject_of_current? ht complaint)
    (.alike (.complaint rfl (reject_of_current? ht' complaint) hR habreast))

/-- A roomier parse may go on where the first complains about depth. -/
theorem reject_depth {Q : α → β → Prop} (hroomier : K.roomier) (m' : Parse β) :
    Tracks K Q (Parse.reject .nestedTooDeeply) m' := by
  rintro v v' s s' habreast
  have ⟨_, _, t, _, _, _, _, ht, _⟩ := habreast
  exact Yields.of_error (reject_of_current? ht .nestedTooDeeply) (.alike (.depth hroomier rfl))

/-- Moving on within rooms of which the second holds what the first does. -/
theorem skipWithin {room room' : Nat} (hroom : K.Holds room room') :
    Tracks K (fun _ _ => True) (Parse.skipWithin room) (Parse.skipWithin room') := by
  rintro v v' s s' habreast
  -- the next pulls of both, if they are shared, and otherwise as far as the frontier tells
  have hframes : (K.Frames s.source.pull.frames s'.source.pull.frames ∨
        ∃ p, s.source.ahead = v ∧ v.head? = some p) ∧
      (K.roomier ∨ s.source.pull.frames = s'.source.pull.frames) := by
    obtain ⟨us, us', t, t', hs, hs', hus, -, -, -, hfrontier⟩ := habreast
    cases hus with
    | nil =>
      have hpull : s.source.pull = v.headD s.source.final := by rw [TokenSource.pull, hs]; rfl
      have hpull' : s'.source.pull = v'.headD s'.source.final := by rw [TokenSource.pull, hs']; rfl
      rw [hpull, hpull']
      rcases hfrontier with ⟨hv, -, hframes⟩ | ⟨rfl, rfl, -, hfinal, -⟩
      · obtain ⟨p, ps, rfl⟩ := List.exists_cons_of_ne_nil hv
        exact ⟨.inr ⟨p, hs, rfl⟩, hframes⟩
      · exact ⟨.inl hfinal.frames, hfinal.frames.2.2⟩
    | @cons p p' us us' hp hus =>
      have hpull : s.source.pull = p := pull_of_ahead hs
      have hpull' : s'.source.pull = p' := pull_of_ahead hs'
      rw [hpull, hpull']
      exact ⟨.inl hp.frames, hp.frames.2.2⟩
  obtain ⟨hshared, hequal⟩ := hframes
  unfold TracksFrom
  rcases Nat.lt_or_ge room s.source.pull.frames with hlt | hle
  · rcases hroom.full hequal hlt with hroomier | hlt'
    · have hdepth := reject_depth (Q := fun (_ _ : Unit) => True) hroomier (Parse.skipWithin room')
        v v' s s' habreast
      unfold TracksFrom Yields at hdepth
      unfold Yields
      rwa [skipWithin_of_lt hlt]
    · have hreject := reject (Q := fun (_ _ : Unit) => True) .nestedTooDeeply v v' s s' habreast
      unfold TracksFrom Yields at hreject
      unfold Yields
      rwa [skipWithin_of_lt hlt, skipWithin_of_lt hlt']
  · have hskip : TracksFrom K v v' s s' (fun _ _ => True) Parse.skip (Parse.skipWithin room') := by
      rcases hshared with hframes | ⟨p, hs, hp⟩
      · refine (skip v v' s s' habreast).congr_right ?_
        rw [skipWithin_of_le (hroom.1 _ _ hframes hle)]
      · exact skip_beyond hs hp
    unfold TracksFrom Yields at hskip
    unfold Yields
    rwa [skipWithin_of_le hle]

end Tracks

/-! ## Readers that go in lockstep -/

section Readers

theorem Tracks.currentIs (kinds : List TokenKind) :
    Tracks K Eq (Parse.currentIs kinds) (Parse.currentIs kinds) := by
  refine Tracks.current.bind fun t t' hR => Tracks.pure ?_
  rw [K.kind_eq hR]

/-- Where the kind of the current token decides, both take the same branch. -/
theorem Tracks.choose (kinds : List TokenKind) {m₁ m₂ : Parse α} {m₁' m₂' : Parse β} [Shrinks m₁]
    [Shrinks m₂] (h₁ : Tracks K Q m₁ m₁') (h₂ : Tracks K Q m₂ m₂') :
    Tracks K Q (Parse.currentIs kinds >>= fun b => if b = true then m₁ else m₂)
      (Parse.currentIs kinds >>= fun b => if b = true then m₁' else m₂') := by
  refine (Tracks.currentIs kinds).bind ?_
  rintro b _ rfl
  exact Tracks.ite Iff.rfl h₁ h₂

theorem Tracks.expect (kind : TokenKind) (what : Expectation) :
    Tracks K K.token (Parse.expect kind what) (Parse.expect kind what) := by
  refine Tracks.current.bind fun t t' hR => ?_
  refine Tracks.ite (by rw [K.kind_eq hR]) ?_ (Tracks.reject _)
  exact Tracks.skip.bind fun _ _ _ => Tracks.pure hR

/-- Once nothing is to come, the sentinel is current and the loops of a tier are over. -/
theorem operands_tracks_end {operand operand' : Parse Node} {ops : List TokenKind}
    (hops : .endOfInput ∉ ops) {rounds rounds' : List Pull} {left left' : Node}
    (habreast : Abreast K v v' s s') (hnil : s.source.ahead = [] ∨ s'.source.ahead = [])
    (hleft : Node.RelatedBy K.token left left') :
    TracksFrom K v v' s s' (Node.RelatedBy K.token) (operands ops operand rounds left)
      (operands ops operand' rounds' left') := by
  obtain ⟨t, t', ht, ht', hk, hk'⟩ := habreast.at_end hnil
  exact .of_ok (operands_of_current? ht (hk ▸ hops) rounds left)
    (operands_of_current? ht' (hk' ▸ hops) rounds' left') hleft habreast

/-- The loop of a tier goes in lockstep, as long as both bounds are no shorter than what is to
come. -/
theorem operands_tracks {operand operand' : Parse Node} [Shrinks operand]
    (ho : Tracks K (Node.RelatedBy K.token) operand operand') {ops : List TokenKind}
    (hops : .endOfInput ∉ ops) (rounds rounds' : List Pull) (left left' : Node)
    (habreast : Abreast K v v' s s') (hlen : s.source.ahead.length ≤ rounds.length)
    (hlen' : s'.source.ahead.length ≤ rounds'.length) (hleft : Node.RelatedBy K.token left left') :
    TracksFrom K v v' s s' (Node.RelatedBy K.token) (operands ops operand rounds left)
      (operands ops operand' rounds' left') := by
  induction rounds generalizing rounds' left left' s s' with
  | nil =>
    have hnil := List.eq_nil_of_length_eq_zero (Nat.le_zero.mp hlen)
    exact operands_tracks_end hops habreast (.inl hnil) hleft
  | cons round rounds ih =>
    cases rounds' with
    | nil =>
      have hnil := List.eq_nil_of_length_eq_zero (Nat.le_zero.mp hlen')
      exact operands_tracks_end hops habreast (.inr hnil) hleft
    | cons round' rounds' =>
      -- with something to come on both sides, a round takes a pull on each and keeps both bounds
      by_cases hnil : s.source.ahead = []
      · exact operands_tracks_end hops habreast (.inl hnil) hleft
      rw [List.length_cons] at hlen hlen'
      have hl₀ := habreast.length
      have hpos := List.length_pos_of_ne_nil hnil
      refine (Tracks.currentIs ops v v' s s' habreast).bind ?_
      rintro b _ s₁ s₁' hm₁ rfl h₁
      have hs₁ := (Shrinks.length_le (currentIs ops) s).good_of_ok hm₁
      cases b with
      | false => exact Tracks.pure hleft v v' s₁ s₁' h₁
      | true =>
        refine (Tracks.current v v' s₁ s₁' h₁).bind ?_
        rintro op op' s₂ s₂' hm₂ hop h₂
        have hs₂ := (Shrinks.length_le current s₁).good_of_ok hm₂
        refine (Tracks.skip v v' s₂ s₂' h₂).bind ?_
        rintro _ _ s₃ s₃' hm₃ - h₃
        have hs₃ := (skip_ahead s₂).good_of_ok hm₃
        have hl₃ := h₃.length
        rw [hs₃, List.length_tail] at hl₃
        refine (ho v v' s₃ s₃' h₃).bind ?_
        rintro right right' s₄ s₄' hm₄ hright h₄
        have hs₄ := (Shrinks.length_le operand s₃).good_of_ok hm₄
        rw [hs₃, List.length_tail] at hs₄
        have hl₄ := h₄.length
        refine ih rounds' _ _ h₄ (by omega) (by omega) ?_
        rw [K.kind_eq hop]
        exact .binary _ ⟨op, op', hop, rfl, rfl⟩ hleft hright

theorem Tracks.tier {operand operand' : Parse Node} [Shrinks operand]
    (ho : Tracks K (Node.RelatedBy K.token) operand operand') {ops : List TokenKind}
    (hops : .endOfInput ∉ ops) :
    Tracks K (Node.RelatedBy K.token) (Parse.tier ops operand) (Parse.tier ops operand') := by
  intro v v' s s' habreast
  refine (ho v v' s s' habreast).bind ?_
  rintro left left' s₁ s₁' - hleft h₁
  have hahead : Parse.ahead s₁ = .ok s₁.source.ahead s₁ := rfl
  have hahead' : Parse.ahead s₁' = .ok s₁'.source.ahead s₁' := rfl
  have hloop := operands_tracks ho hops _ _ left left' h₁ (Nat.le_refl _) (Nat.le_refl _) hleft
  unfold TracksFrom at hloop ⊢
  rw [bind_of_ok hahead']
  exact Yields.step hahead hloop

section Factor

variable {room room' : Nat} {factor factor' : Parse Node} [Shrinks factor]

theorem Tracks.negationOf (hroom : K.Rooms room room')
    (hf : Tracks K (Node.RelatedBy K.token) factor factor') :
    Tracks K (Node.RelatedBy K.token) (Parse.negationOf room factor)
      (Parse.negationOf room' factor') := by
  refine Tracks.choose _ ?_ hf
  refine Tracks.currentLine.bind fun l l' hl => ?_
  refine (Tracks.skipWithin (hroom.add 1).holds).bind fun _ _ _ => ?_
  exact hf.bind fun n n' hn => Tracks.pure (.unary _ hl hn)

theorem Tracks.productOf (hroom : K.Rooms room room')
    (hf : Tracks K (Node.RelatedBy K.token) factor factor') :
    Tracks K (Node.RelatedBy K.token) (Parse.productOf room factor)
      (Parse.productOf room' factor') :=
  Tracks.tier (Tracks.negationOf hroom hf) (by decide)

theorem Tracks.sumOf (hroom : K.Rooms room room')
    (hf : Tracks K (Node.RelatedBy K.token) factor factor') :
    Tracks K (Node.RelatedBy K.token) (Parse.sumOf room factor) (Parse.sumOf room' factor') :=
  Tracks.tier (Tracks.productOf hroom hf) (by decide)

theorem Tracks.comparisonFrom (hroom : K.Rooms room room')
    (hf : Tracks K (Node.RelatedBy K.token) factor factor') {left left' : Node}
    (hleft : Node.RelatedBy K.token left left') :
    Tracks K (Node.RelatedBy K.token) (Parse.comparisonFrom room factor left)
      (Parse.comparisonFrom room' factor' left') := by
  refine Tracks.choose _ ?_ (Tracks.pure hleft)
  refine Tracks.current.bind fun op op' hop => ?_
  refine Tracks.skip.bind fun _ _ _ => ?_
  refine (Tracks.sumOf hroom hf).bind fun right right' hright => ?_
  rw [K.kind_eq hop]
  exact Tracks.pure (.relation _ ⟨op, op', hop, rfl, rfl⟩ hleft hright)

theorem Tracks.expressionOf (hroom : K.Rooms room room') {outer outer' : Parse Node}
    [Shrinks outer] (ho : Tracks K (Node.RelatedBy K.token) outer outer')
    (hf : Tracks K (Node.RelatedBy K.token) factor factor') :
    Tracks K (Node.RelatedBy K.token) (Parse.expressionOf room outer factor)
      (Parse.expressionOf room' outer' factor') := by
  refine Tracks.tier ?_ (by decide)
  exact (Tracks.sumOf (hroom.add 1) ho).bind fun left left' hleft =>
    Tracks.comparisonFrom hroom hf hleft

end Factor

/-! ## All rooms -/

theorem Tracks.leaf {l l' : Int} (hl : LineRelated K.token l l') {room room' : Nat}
    (hroom : K.Rooms room room') :
    Tracks K (Node.RelatedBy K.token)
      (do let t ← Parse.current; Parse.skipWithin room; return .leaf l t)
      (do let t ← Parse.current; Parse.skipWithin room'; return .leaf l' t) := by
  refine Tracks.current.bind fun t t' hR => ?_
  exact (Tracks.skipWithin hroom.holds).bind fun _ _ _ => Tracks.pure (.leaf hl hR)

set_option synthInstance.maxSize 256 in
theorem Tracks.factorWith {room room' : Nat} (hroom : K.Rooms room room')
    {expression expression' : Parse Node} [Shrinks expression]
    (he : Tracks K (Node.RelatedBy K.token) expression expression') :
    Tracks K (Node.RelatedBy K.token) (Parse.factorWith room expression)
      (Parse.factorWith room' expression') := by
  refine Tracks.currentLine.bind fun l l' hl => ?_
  refine Tracks.choose _ (Tracks.leaf hl hroom) ?_
  refine Tracks.choose _ ?_ (Tracks.reject _)
  refine (Tracks.skipWithin hroom.holds_pred).bind fun _ _ _ => ?_
  refine he.bind fun n n' hn => ?_
  exact (Tracks.expect _ _).bind fun _ _ _ => Tracks.pure hn

/-- Readers of factors go in lockstep. Where the first has no room left and the second has, the
second is roomier. -/
theorem Tracks.factor {room room' : Nat} (hroom : K.Rooms room room') :
    Tracks K (Node.RelatedBy K.token) (Parse.factor room) (Parse.factor room') := by
  induction room using Parse.factor.induct generalizing room' with
  | case1 room outer inner =>
    obtain ⟨room', rfl⟩ : ∃ r, room' = r + 6 := ⟨room' - 6, by have := hroom.1; omega⟩
    have hbelow : K.Rooms room room' := Pairing.Rooms.sub (n := 6) hroom
    rw [Parse.factor, Parse.factor]
    exact Tracks.factorWith hroom
      (Tracks.expressionOf hbelow (outer (hbelow.add 1)) (inner hbelow))
  | case2 room hsmall =>
    rw [Parse.factor.eq_2 room hsmall]
    cases room' using Parse.factor.induct with
    | case1 room' =>
      have hroomier : K.roomier := hroom.2.resolve_right fun heq => hsmall room' heq
      rw [Parse.factor]
      exact Tracks.factorWith hroom (Tracks.reject_depth hroomier _)
    | case2 room' hsmall' =>
      rw [Parse.factor.eq_2 room' hsmall']
      exact Tracks.factorWith hroom (Tracks.reject _)

/-! ## Programs -/

variable {d d' : Nat} (hd : K.Rooms d d')

include hd

theorem Tracks.expression :
    Tracks K (Node.RelatedBy K.token) (Parse.expression d) (Parse.expression d') :=
  Tracks.expressionOf hd (Tracks.factor (hd.add 1)) (Tracks.factor hd)

theorem Tracks.statement :
    Tracks K (Node.RelatedBy K.token) (Parse.statement d) (Parse.statement d') := by
  refine Tracks.choose _ ?_ (Tracks.expression hd)
  refine Tracks.currentLine.bind fun l l' hl => ?_
  refine Tracks.skip.bind fun _ _ _ => ?_
  refine (Tracks.expect _ _).bind fun name name' hname => ?_
  refine (Tracks.expect _ _).bind fun _ _ _ => ?_
  refine (Tracks.expression hd).bind fun n n' hn => ?_
  exact Tracks.pure (.binary _ hl (.leaf ⟨name, name', hname, rfl, rfl⟩ hname) hn)

theorem Tracks.closedStatement :
    Tracks K (Node.RelatedBy K.token) (Parse.closedStatement d) (Parse.closedStatement d') := by
  refine (Tracks.statement hd).bind fun n n' hn => ?_
  exact (Tracks.expect _ _).bind fun _ _ _ => Tracks.pure hn

omit hd in
/-- Once nothing is to come, the sentinel is current and the loops over statements are over. -/
theorem statements_tracks_end {rounds rounds' : List Pull} (habreast : Abreast K v v' s s')
    (hnil : s.source.ahead = [] ∨ s'.source.ahead = []) :
    TracksFrom K v v' s s' (List.Forall₂ (Node.RelatedBy K.token)) (Parse.statements d rounds)
      (Parse.statements d' rounds') := by
  obtain ⟨t, t', ht, ht', hk, hk'⟩ := habreast.at_end hnil
  exact .of_ok (statements_of_current? ht hk d rounds) (statements_of_current? ht' hk' d' rounds')
    .nil habreast

theorem statements_tracks (rounds rounds' : List Pull) (habreast : Abreast K v v' s s')
    (hlen : s.source.ahead.length ≤ rounds.length)
    (hlen' : s'.source.ahead.length ≤ rounds'.length) :
    TracksFrom K v v' s s' (List.Forall₂ (Node.RelatedBy K.token))
      (Parse.statements d rounds) (Parse.statements d' rounds') := by
  induction rounds generalizing rounds' s s' with
  | nil =>
    have hnil := List.eq_nil_of_length_eq_zero (Nat.le_zero.mp hlen)
    exact statements_tracks_end habreast (.inl hnil)
  | cons round rounds ih =>
    cases rounds' with
    | nil =>
      have hnil := List.eq_nil_of_length_eq_zero (Nat.le_zero.mp hlen')
      exact statements_tracks_end habreast (.inr hnil)
    | cons round' rounds' =>
      by_cases hnil : s.source.ahead = []
      · exact statements_tracks_end habreast (.inl hnil)
      rw [List.length_cons] at hlen hlen'
      have hl₀ := habreast.length
      have hpos := List.length_pos_of_ne_nil hnil
      refine (Tracks.currentIs _ v v' s s' habreast).bind ?_
      rintro b _ s₁ s₁' hm₁ rfl h₁
      have hs₁ := (Shrinks.length_le (currentIs _) s).good_of_ok hm₁
      cases b with
      | true => exact Tracks.pure .nil v v' s₁ s₁' h₁
      | false =>
        refine (Tracks.closedStatement hd v v' s₁ s₁' h₁).bind ?_
        rintro n n' s₂ s₂' hm₂ hn h₂
        have hs₂ := (closedStatement_takes d s₁).good_of_ok hm₂
        have hl₂ := h₂.length
        refine (ih rounds' h₂ (by omega) (by omega)).bind ?_
        exact fun ns ns' s₃ s₃' _ hns h₃ => Tracks.pure (.cons hn hns) v v' s₃ s₃' h₃

/-- Statements of a program go in lockstep with the loop over statements, before one that is none
of the first. -/
theorem programStatements_tracks_statements (rounds' : List Pull) (habreast : Abreast K v v' s s')
    {t : Token} (ht : s.source.current? = some t) (hk : t.kind ≠ .endOfInput)
    (hlen' : s'.source.ahead.length ≤ rounds'.length) :
    TracksFrom K v v' s s' (List.Forall₂ (Node.RelatedBy K.token))
      (Parse.programStatements d) (Parse.statements d' rounds') := by
  have ⟨_, _, t₁, t', _, _, _, ht₁, ht', hR, _⟩ := habreast
  rw [ht] at ht₁
  injection ht₁ with ht₁
  have hk' : [TokenKind.endOfInput].contains t'.kind = false := by
    rw [← K.kind_eq hR, ← ht₁]
    simpa using hk
  have hne : ¬ (s.source.ahead = [] ∨ s'.source.ahead = []) := fun hnil => by
    obtain ⟨u, -, hu, -, hend, -⟩ := habreast.at_end hnil
    rw [ht] at hu
    injection hu with hu
    exact hk (hu ▸ hend)
  obtain ⟨hne, hne'⟩ := not_or.mp hne
  cases rounds' with
  | nil => exact absurd (List.eq_nil_of_length_eq_zero (Nat.le_zero.mp hlen')) hne'
  | cons round' rounds' =>
    rw [List.length_cons] at hlen'
    have hl₀ := habreast.length
    have hpos := List.length_pos_of_ne_nil hne
    -- the first statement is read outside the loop on the one side and in its first round on the other
    have hloop : TracksFrom K v v' s s' (List.Forall₂ (Node.RelatedBy K.token))
        (Parse.programStatements d) (Parse.closedStatement d' >>= fun n =>
          Parse.statements d' rounds' >>= fun ns => return n :: ns) := by
      refine (Tracks.closedStatement hd v v' s s' habreast).bind ?_
      rintro n n' s₁ s₁' hm₁ hn h₁
      have hs₁ := (closedStatement_takes d s).good_of_ok hm₁
      have hl₁ := h₁.length
      have hahead : Parse.ahead s₁ = .ok s₁.source.ahead s₁ := rfl
      have htail : TracksFrom K v v' s₁ s₁' (List.Forall₂ (Node.RelatedBy K.token))
          (Parse.statements d s₁.source.ahead >>= fun ns => return n :: ns)
          (Parse.statements d' rounds' >>= fun ns => return n' :: ns) :=
        (statements_tracks hd _ rounds' h₁ (Nat.le_refl _) (by omega)).bind
          fun ns ns' s₂ s₂' _ hns h₂ => Tracks.pure (.cons hn hns) v v' s₂ s₂' h₂
      unfold TracksFrom at htail ⊢
      exact Yields.step hahead htail
    refine hloop.congr_right ?_
    rw [Parse.statements, bind_of_ok (currentIs_of_current? ht' _), hk', if_neg Bool.false_ne_true]

theorem Tracks.programStatements :
    Tracks K (List.Forall₂ (Node.RelatedBy K.token)) (Parse.programStatements d)
      (Parse.programStatements d') := by
  intro v v' s s' habreast
  refine (Tracks.closedStatement hd v v' s s' habreast).bind ?_
  rintro n n' s₁ s₁' - hn h₁
  have hahead : Parse.ahead s₁ = .ok s₁.source.ahead s₁ := rfl
  have hahead' : Parse.ahead s₁' = .ok s₁'.source.ahead s₁' := rfl
  have hstatements := statements_tracks hd _ _ h₁ (Nat.le_refl _) (Nat.le_refl _)
  have hloop : TracksFrom K v v' s₁ s₁' (List.Forall₂ (Node.RelatedBy K.token))
      (statements d s₁.source.ahead >>= fun ns => return n :: ns)
      (statements d' s₁'.source.ahead >>= fun ns => return n' :: ns) :=
    hstatements.bind fun ns ns' s₂ s₂' _ hns h₂ => Tracks.pure (.cons hn hns) v v' s₂ s₂' h₂
  unfold TracksFrom at hloop ⊢
  rw [bind_of_ok hahead']
  exact Yields.step hahead hloop

/-- A parse behind its first step. -/
def programBody (d : Nat) : Parse SyntaxTree := do
  let line ← Parse.currentLine
  let statements ← Parse.programStatements d
  let _ ← Parse.expect .endOfInput .endOfInput
  Parse.record (.parsed statements.length)
  return ⟨.program line statements⟩

instance Shrinks.programBody (d : Nat) : Shrinks (programBody d) := by
  unfold Parse.programBody
  infer_instance

omit hd in
/-- What comes first is only to move before the first token. -/
theorem wholeProgram_eq (d : Nat) : wholeProgram d = skip >>= fun _ => programBody d := rfl

/-- Parses go in lockstep from the first token on. -/
theorem Tracks.programBody :
    Tracks K (SyntaxTree.RelatedBy K.token) (programBody d) (programBody d') := by
  refine Tracks.currentLine.bind fun l l' hl => ?_
  refine (Tracks.programStatements hd).bind fun ns ns' hns => ?_
  refine (Tracks.expect _ _).bind fun _ _ _ => ?_
  refine (Tracks.record _ _).bind fun _ _ _ => ?_
  exact Tracks.pure ⟨l, l', ns, ns', rfl, rfl, hl, hns⟩

/-- Parses of sources whose first pulls correspond go in lockstep. -/
theorem wholeProgram_tracks {p p' : Pull} {us us' : List Pull}
    (hs : s.source.ahead = p :: (us ++ v)) (hs' : s'.source.ahead = p' :: (us' ++ v'))
    (hp : p.Paired K p') (hus : List.Forall₂ (Pull.Paired K) us us')
    (hfrontier : ∀ t, p.outcome = .ok t → Frontier K v v' t us s.source.final s'.source.final) :
    TracksFrom K v v' s s' (SyntaxTree.RelatedBy K.token) (wholeProgram d) (wholeProgram d') := by
  rw [wholeProgram_eq, wholeProgram_eq]
  exact (Tracks.skip_paired hs hs' hp hus hfrontier).bind fun _ _ s₁ s₁' _ _ habreast =>
    Tracks.programBody hd v v' s₁ s₁' habreast

end Readers

end Parse

end MflFrontend
