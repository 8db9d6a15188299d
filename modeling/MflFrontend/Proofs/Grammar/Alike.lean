import MflFrontend.Proofs.Grammar.Lockstep
import MflFrontend.Proofs.Grammar.Recognition
import MflFrontend.Proofs.Lexing.Pulls

/-!
# Sources that correspond

Two sources may hold their tokens differently: one has them from a text, the other from a list, with
other lines and frames for its pulls. Parses of sources whose pulls correspond are alike
(`wholeProgram_alike`). They give trees of one shape, fail with corresponding readings, or complain
of corresponding tokens in the same words, as far as depth does not tell them apart.

Where there is room for all parentheses, depth does not: a parse of tokens comes to the same with more
room and from pulls that take more frames (`wholeProgram_coincides`).
-/

namespace MflFrontend

/-! ## Trees related by equality -/

section Equal

variable {R : Token → Token → Prop} (hR : ∀ {t t' : Token}, R t t' → t = t')

include hR

theorem LineRelated.eq {l l' : Int} (h : LineRelated R l l') : l = l' := by
  obtain ⟨t, t', ht, rfl, rfl⟩ := h
  rw [hR ht]

theorem Node.RelatedBy.eq {n n' : Node} (h : Node.RelatedBy R n n') : n = n' := by
  induction h with
  | leaf hl ht => rw [LineRelated.eq hR hl, hR ht]
  | unary op hl _ ih => rw [LineRelated.eq hR hl, ih]
  | binary op hl _ _ iha ihb => rw [LineRelated.eq hR hl, iha, ihb]
  | relation op hl _ _ iha ihb => rw [LineRelated.eq hR hl, iha, ihb]

theorem SyntaxTree.RelatedBy.eq {tree tree' : SyntaxTree} (h : SyntaxTree.RelatedBy R tree tree') :
    tree = tree' := by
  obtain ⟨l, l', ns, ns', rfl, rfl, hl, hns⟩ := h
  have hns' : List.Forall₂ Eq ns ns' := hns.imp fun _ _ => Node.RelatedBy.eq hR
  rw [List.forall₂_eq_eq_eq] at hns'
  rw [LineRelated.eq hR hl, hns']

end Equal

/-! ## Sources -/

/-- The last of the pulls brings nothing but a sentinel. -/
def Pull.Concluded (ps : List Pull) : Prop :=
  ∃ front p, ps = front ++ [p] ∧ ∀ e, p.outcome = .ok e → e.kind = .endOfInput

/-- Tokens of which the last is the sentinel are concluded. -/
theorem Brings.concluded {ps : List Pull} {us : List Token} {e : Token} (h : Brings ps (us ++ [e]))
    (he : e.kind = .endOfInput) : Pull.Concluded ps := by
  obtain ⟨front, p, rfl, hp⟩ := h.last
  refine ⟨front, p, rfl, fun e' he' => ?_⟩
  rw [hp] at he'
  cases he'
  exact he

/-- What a text brings is concluded. -/
theorem Cursor.pulls_concluded (c : Cursor) : Pull.Concluded c.pulls := by
  obtain ⟨front, p, hpulls⟩ := (List.eq_nil_or_concat c.pulls).resolve_left (pulls_ne_nil c)
  rw [List.concat_eq_append] at hpulls
  exact ⟨front, p, hpulls, fun e he => (pulls_sentinel hpulls he).mpr rfl⟩

namespace Pull.Concluded

/-- Behind a token, pulls that are concluded end at the sentinel. -/
theorem endsAtSentinel {p : Pull} {ps : List Pull} (h : Concluded (p :: ps)) {t : Token}
    (hp : p.outcome = .ok t) : EndsAtSentinel t ps := by
  induction ps generalizing p t with
  | nil =>
    obtain ⟨front, q, hsplit, hq⟩ := h
    obtain ⟨rfl, rfl⟩ : front = [] ∧ p = q := by
      cases front with
      | nil => exact ⟨rfl, List.head_eq_of_cons_eq hsplit⟩
      | cons a front => simp at hsplit
    exact hq t hp
  | cons q qs ih =>
    obtain ⟨front, r, hsplit, hr⟩ := h
    cases front with
    | nil => simp at hsplit
    | cons a front =>
      injection hsplit with _ hsplit
      exact fun u hu => ih ⟨front, r, hsplit, hr⟩ hu

/-- The pulls that come again and again correspond, and bring nothing but sentinels. -/
theorem final {K : Pairing} {ps ps' : List Pull} (h : Concluded ps)
    (hps : List.Forall₂ (Pull.Paired K) ps ps') (d d' : Pull) :
    Pull.Paired K (ps.getLastD d) (ps'.getLastD d') ∧
      ∀ e, (ps.getLastD d).outcome = .ok e → e.kind = .endOfInput := by
  obtain ⟨front, p, rfl, hp⟩ := h
  obtain ⟨front', last', rfl, -, hlast⟩ := forall₂_append_left hps
  cases hlast with
  | @cons _ p' _ _ hpaired hnil =>
    cases hnil
    simp only [List.getLastD_concat]
    exact ⟨hpaired, hp⟩

end Pull.Concluded

theorem brings_ofToken (ts : List Token) : Brings (ts.map .ofToken) ts := by
  induction ts with
  | nil => exact .nil
  | cons t ts ih => exact .cons rfl ih

/-- Pulls of corresponding tokens of lists correspond. -/
theorem Pull.paired_ofToken {K : Pairing} {ts ts' : List Token} (h : List.Forall₂ K.token ts ts') :
    List.Forall₂ (Pull.Paired K) (ts.map .ofToken) (ts'.map .ofToken) := by
  rw [List.forall₂_map_left_iff, List.forall₂_map_right_iff]
  exact h.imp fun t t' ht => ⟨.inl ⟨t, t', rfl, rfl, ht⟩, Pairing.frames_self (Nat.succ_pos 2)⟩

/-- Pulls correspond to themselves if their tokens do. -/
theorem Brings.paired_self {K : Pairing} {ps : List Pull} {ts : List Token} (h : Brings ps ts)
    (hts : ∀ t ∈ ts, K.token t t) (hframes : ∀ p ∈ ps, 0 < p.frames) :
    List.Forall₂ (Pull.Paired K) ps ps := by
  induction h with
  | nil => exact .nil
  | @cons p t ps ts hp _ ih =>
    obtain ⟨ht, hts⟩ := List.forall_mem_cons.mp hts
    obtain ⟨hpos, hframes⟩ := List.forall_mem_cons.mp hframes
    exact .cons ⟨.inl ⟨t, t, hp, hp, ht⟩, Pairing.frames_self hpos⟩ (ih hts hframes)

/-- Pulls of the same tokens correspond, if those of a roomier parse take little more. -/
theorem Brings.paired_roomy {failure : Failure → Failure → Prop} {slack : Nat} {ps ps' : List Pull}
    {ts : List Token} (h : Brings ps ts) (h' : Brings ps' ts)
    (hframes : ∀ p ∈ ps, ∀ p' ∈ ps', 0 < p.frames ∧ p'.frames ≤ p.frames + slack) :
    List.Forall₂ (Pull.Paired (.roomy failure slack)) ps ps' := by
  induction h generalizing ps' with
  | nil =>
    cases h'
    exact .nil
  | @cons p t ps ts hp _ ih =>
    cases h' with
    | @cons p' _ ps' _ hp' hps' =>
      obtain ⟨hpos, hle⟩ := hframes p List.mem_cons_self p' List.mem_cons_self
      refine .cons ⟨.inl ⟨t, t, hp, hp', rfl⟩, hpos, hle, .inl trivial⟩ (ih hps' fun q hq q' hq' => ?_)
      exact hframes q (List.mem_cons_of_mem p hq) q' (List.mem_cons_of_mem p' hq')

namespace Parse

/-- The state in which a parse of the pulls begins. -/
def startOfPulls (ps : List Pull) (idleLine : Int) : ParseState :=
  { source := .ofPulls ps idleLine }

/-- A parse of tokens is one of the pulls that bring them. -/
theorem startOf_eq (ts : List Token) : startOf ts =
    startOfPulls ((closeTokens ts).map .ofToken) (((closeTokens ts).head?.map Token.line).getD 1) :=
  rfl

/-- Parses of sources that correspond are alike. -/
theorem wholeProgram_alike {K : Pairing} {d d' : Nat} (hd : K.Rooms d d') {ps ps' : List Pull}
    (h : List.Forall₂ (Pull.Paired K) ps ps') (hlast : Pull.Concluded ps) (idle idle' : Int) :
    (∃ tree tree' s s', wholeProgram d (startOfPulls ps idle) = .ok tree s ∧
      wholeProgram d' (startOfPulls ps' idle') = .ok tree' s' ∧
      SyntaxTree.RelatedBy K.token tree tree' ∧ Abreast K [] [] s s') ∨
    ∃ failure s, wholeProgram d (startOfPulls ps idle) = .error failure s ∧
      FailsAlike K [] [] failure s (wholeProgram d' (startOfPulls ps' idle')) := by
  have hfinal := hlast.final h
  cases h with
  | nil =>
    obtain ⟨front, p, hnil, -⟩ := hlast
    exact absurd hnil.symm (by simp)
  | @cons p p' us us' hp hus =>
    have hs : (startOfPulls (p :: us) idle).source.ahead = p :: (us ++ []) := by
      rw [List.append_nil]
      rfl
    have hs' : (startOfPulls (p' :: us') idle').source.ahead = p' :: (us' ++ []) := by
      rw [List.append_nil]
      rfl
    refine (wholeProgram_tracks hd hs hs' hp hus fun t ht => ?_).closed
    obtain ⟨hpaired, hkind⟩ := hfinal (.ofToken { kind := .endOfInput, line := 1 })
      (.ofToken { kind := .endOfInput, line := 1 })
    exact .inr ⟨rfl, rfl, hlast.endsAtSentinel ht, hpaired, hkind⟩

/-- Parses of lists of tokens that correspond come to trees of one shape, or to the same complaint of
corresponding tokens, where as much is to come. -/
theorem wholeProgram_listed {R : Token → Token → Prop}
    (hkind : ∀ {t t' : Token}, R t t' → t.kind = t'.kind) (d : Nat) {ts ts' : List Token}
    (h : List.Forall₂ R (closeTokens ts) (closeTokens ts')) :
    (∃ tree tree' s s', wholeProgram d (startOf ts) = .ok tree s ∧
      wholeProgram d (startOf ts') = .ok tree' s' ∧ SyntaxTree.RelatedBy R tree tree') ∨
    ∃ complaint : Complaint, ∃ t t' s s',
      wholeProgram d (startOf ts) = .error (complaint.about t) s ∧
      wholeProgram d (startOf ts') = .error (complaint.about t') s' ∧ R t t' ∧
      s.source.ahead.length = s'.source.ahead.length := by
  obtain ⟨us, e, hclosed, he⟩ := closeTokens_last ts
  have hconcluded : Pull.Concluded ((closeTokens ts).map .ofToken) := by
    rw [hclosed]
    exact (brings_ofToken (us ++ [e])).concluded he
  rcases wholeProgram_alike (K := .strict R hkind fun _ _ => False) (Pairing.strict_rooms d)
      (Pull.paired_ofToken h) hconcluded (((closeTokens ts).head?.map Token.line).getD 1)
      (((closeTokens ts').head?.map Token.line).getD 1) with
    ⟨tree, tree', s, s', hrun, hrun', htree, -⟩ | ⟨failure, s, hrun, halike⟩
  · exact .inl ⟨tree, tree', s, s', hrun, hrun', htree⟩
  · cases halike with
    | reading _ hfailure => exact hfailure.elim
    | depth hroomier => exact hroomier.elim
    | complaint hf hrun' ht habreast =>
      rw [hf] at hrun
      exact .inr ⟨_, _, _, s, _, hrun, hrun', ht, by simpa using habreast.length.1⟩

/-! ## Parses that come to the same -/

/-- Two runs that come to the same tree, or to the same failure where as much is to come. -/
inductive Coincide : (r r' : EStateM.Result Failure ParseState SyntaxTree) → Prop where
  /-- Both give a tree. -/
  | tree {tree : SyntaxTree} {s s' : ParseState} : Coincide (.ok tree s) (.ok tree s')
  /-- Both fail. -/
  | failure {failure : Failure} {s s' : ParseState}
      (h : s.source.ahead.length = s'.source.ahead.length) :
      Coincide (.error failure s) (.error failure s')

theorem Coincide.symm {r r' : EStateM.Result Failure ParseState SyntaxTree} (h : Coincide r r') :
    Coincide r' r := by
  cases h with
  | tree => exact .tree
  | failure h => exact .failure h.symm

theorem Coincide.trans {r r' r'' : EStateM.Result Failure ParseState SyntaxTree}
    (h : Coincide r r') (h' : Coincide r' r'') : Coincide r r'' := by
  cases h with
  | tree =>
    cases h' with
    | tree => exact .tree
  | failure h =>
    cases h' with
    | failure h' => exact .failure (h.trans h')

/-- Where there is room for the parentheses of a list, its parse comes to the same from pulls that
take some frames more, as long as there are as many frames more. -/
theorem wholeProgram_coincides {d d' : Nat} (slack : Nat) {ts : List Token} {ps : List Pull}
    (hroom : ¬ Crowded d (beforeEnd ts)) (hts : ∀ t ∈ closeTokens ts, t.IsDescribable)
    (hps : Brings ps (closeTokens ts)) (hframes : ∀ p ∈ ps, p.frames ≤ 3 + slack)
    (hd : d + slack ≤ d') (idle : Int) :
    Coincide (wholeProgram d (startOf ts)) (wholeProgram d' (startOfPulls ps idle)) := by
  obtain ⟨us, e, hclosed, he⟩ := closeTokens_last ts
  have hlisted := brings_ofToken (closeTokens ts)
  have hpaired : List.Forall₂ (Pull.Paired (.roomy (fun _ _ => False) slack))
      ((closeTokens ts).map .ofToken) ps := by
    refine hlisted.paired_roomy hps fun p hp p' hp' => ?_
    obtain ⟨t, -, rfl⟩ := List.mem_map.mp hp
    exact ⟨Nat.succ_pos 2, hframes p' hp'⟩
  have hconcluded : Pull.Concluded ((closeTokens ts).map .ofToken) := by
    rw [hclosed] at hlisted ⊢
    exact hlisted.concluded he
  rw [startOf_eq]
  rcases wholeProgram_alike (K := .roomy (fun _ _ => False) slack) ⟨hd, .inl trivial⟩ hpaired
      hconcluded _ idle with
    ⟨tree, tree', s, s', hrun, hrun', htree, -⟩ | ⟨failure, s, hrun, halike⟩
  · rw [hrun, hrun', htree.eq id]
    exact .tree
  · cases halike with
    | reading _ hfailure => exact hfailure.elim
    | depth _ hdeep =>
      obtain ⟨complaint, u, hf, -⟩ := wholeProgram_rejects hts hrun
      obtain ⟨-, he⟩ := Complaint.about_eq_rejected (hdeep.symm.trans hf)
      rw [← startOf_eq, hf, he] at hrun
      exact absurd hrun (wholeProgram_shallow hroom _ _ s)
    | @complaint c t t' s' hf hrun' ht habreast =>
      obtain rfl : t = t' := ht
      rw [hrun, hrun', hf]
      exact .failure (by simpa using habreast.length.1)

/-- No pull takes less than the token of a list, so that a list comes to the tree that its tokens
come to however they are brought, with as much still to come. -/
theorem wholeProgram_of_pulls {d : Nat} {ts : List Token} {ps : List Pull}
    (hps : Brings ps (closeTokens ts)) (hframes : ∀ p ∈ ps, 3 ≤ p.frames) {idle : Int}
    {tree : SyntaxTree} {s : ParseState}
    (hrun : wholeProgram d (startOfPulls ps idle) = .ok tree s) :
    ∃ s', wholeProgram d (startOf ts) = .ok tree s' ∧
      s.source.ahead.length = s'.source.ahead.length := by
  obtain ⟨us, e, hclosed, he⟩ := closeTokens_last ts
  have hpaired : List.Forall₂ (Pull.Paired (.roomy (fun _ _ => False) 0)) ps
      ((closeTokens ts).map .ofToken) := by
    refine hps.paired_roomy (brings_ofToken _) fun p hp p' hp' => ?_
    obtain ⟨t, -, rfl⟩ := List.mem_map.mp hp'
    exact ⟨Nat.lt_of_lt_of_le (by decide) (hframes p hp), hframes p hp⟩
  have hconcluded : Pull.Concluded ps := by
    rw [hclosed] at hps
    exact hps.concluded he
  rcases wholeProgram_alike (K := .roomy (fun _ _ => False) 0) (d := d)
      ⟨Nat.le_refl _, .inl trivial⟩ hpaired hconcluded idle
      (((closeTokens ts).head?.map Token.line).getD 1) with
    ⟨_, tree', _, s', hrun₁, hrun', htree, habreast⟩ | ⟨_, _, hrun₁, -⟩
  · rw [hrun] at hrun₁
    cases hrun₁
    exact ⟨s', htree.eq id ▸ hrun', by simpa using habreast.length.1⟩
  · rw [hrun] at hrun₁
    cases hrun₁

end Parse

end MflFrontend
