import MflFrontend.Token.Source
import MflFrontend.Proofs.Decimal.Literal
import MflFrontend.Proofs.Lexing.Recognition
import Mathlib.Data.List.Forall2

/-!
# What reading again and again brings

A reading brings the sentinel exactly if it takes no character. So the sentinel is brought by the
last of the pulls of a text and by no other, and a text becomes tokens exactly if each of its pulls
brings one. A text that does not become tokens brings some before the first failure.
-/

namespace MflFrontend

/-- The pulls bring the tokens, one each. -/
def Brings (ps : List Pull) (ts : List Token) : Prop :=
  List.Forall₂ (fun p t => p.outcome = .ok t) ps ts

/-- What is related to a list in two parts is in two parts. -/
theorem forall₂_append_left {α β : Type} {R : α → β → Prop} {as bs : List α} {cs : List β}
    (h : List.Forall₂ R (as ++ bs) cs) :
    ∃ us vs, cs = us ++ vs ∧ List.Forall₂ R as us ∧ List.Forall₂ R bs vs := by
  induction as generalizing cs with
  | nil => exact ⟨[], cs, rfl, .nil, h⟩
  | cons a as ih =>
    cases h with
    | cons ha htail =>
      obtain ⟨us, vs, rfl, has, hbs⟩ := ih htail
      exact ⟨_ :: us, vs, rfl, .cons ha has, hbs⟩

/-- Each member of the second list is related to one of the first. -/
theorem exists_mem_of_forall₂ {α β : Type} {R : α → β → Prop} {as : List α} {bs : List β}
    (h : List.Forall₂ R as bs) {b : β} (hb : b ∈ bs) : ∃ a ∈ as, R a b := by
  induction h with
  | nil => exact absurd hb List.not_mem_nil
  | @cons a c as bs hac _ ih =>
    rcases List.mem_cons.mp hb with rfl | hb
    · exact ⟨a, List.mem_cons_self, hac⟩
    · obtain ⟨a', hmem, ha'⟩ := ih hb
      exact ⟨a', List.mem_cons_of_mem _ hmem, ha'⟩

namespace Brings

theorem append {ps qs : List Pull} {ts us : List Token} (h : Brings ps ts) (h' : Brings qs us) :
    Brings (ps ++ qs) (ts ++ us) :=
  List.rel_append h h'

/-- Pulls in a row bring tokens in a row. -/
theorem split {ps qs : List Pull} {ts : List Token} (h : Brings (ps ++ qs) ts) :
    ∃ us vs, ts = us ++ vs ∧ Brings ps us ∧ Brings qs vs :=
  forall₂_append_left h

/-- The last of the pulls brings the last of the tokens. -/
theorem last {ps : List Pull} {ts : List Token} {e : Token} (h : Brings ps (ts ++ [e])) :
    ∃ qs p, ps = qs ++ [p] ∧ p.outcome = .ok e := by
  obtain ⟨qs, rs, rfl, -, hlast⟩ := forall₂_append_left h.flip
  cases hlast with
  | cons hp hnil =>
    cases hnil
    exact ⟨qs, _, rfl, hp⟩

/-- Each token is brought by one of the pulls. -/
theorem exists_of_mem {ps : List Pull} {ts : List Token} (h : Brings ps ts) {t : Token}
    (ht : t ∈ ts) : ∃ qs p rs, ps = qs ++ p :: rs ∧ p.outcome = .ok t := by
  obtain ⟨p, hmem, hp⟩ := exists_mem_of_forall₂ h ht
  obtain ⟨qs, rs, rfl⟩ := List.append_of_mem hmem
  exact ⟨qs, p, rs, rfl, hp⟩

end Brings

namespace Pull

/-- The tokens that are brought before the first failure. -/
def goodTokens : List Pull → List Token
  | [] => []
  | p :: ps =>
    match p.outcome with
    | .ok t => t :: goodTokens ps
    | .error _ => []

theorem goodTokens_append {front : List Pull} {ts : List Token} (h : Brings front ts)
    (ps : List Pull) : goodTokens (front ++ ps) = ts ++ goodTokens ps := by
  induction h with
  | nil => rfl
  | cons hp _ ih =>
    simp only [List.cons_append, goodTokens, hp]
    rw [ih]

theorem goodTokens_failing {p : Pull} {failure : Failure} (h : p.outcome = .error failure)
    (ps : List Pull) : goodTokens (p :: ps) = [] := by
  simp only [goodTokens, h]

/-- Pulls become tokens exactly if each brings one. -/
theorem tokens_eq_ok_iff (ps : List Pull) (ts : List Token) :
    tokens ps = .ok ts ↔ Brings ps ts := by
  induction ps generalizing ts with
  | nil =>
    constructor
    · rintro ⟨⟩
      exact .nil
    · rintro ⟨⟩
      rfl
  | cons p ps ih =>
    cases hp : p.outcome with
    | error failure =>
      simp only [tokens, hp]
      constructor
      · rintro ⟨⟩
      · intro h
        cases h with
        | cons hok _ => rw [hp] at hok; cases hok
    | ok t =>
      simp only [tokens, hp]
      cases htail : tokens ps with
      | error failure =>
        constructor
        · rintro ⟨⟩
        · intro h
          cases h with
          | cons _ hps =>
            rw [(ih _).mpr hps] at htail
            cases htail
      | ok us =>
        constructor
        · rintro ⟨⟩
          exact .cons hp ((ih us).mp htail)
        · intro h
          cases h with
          | cons hok hps =>
            rw [hp] at hok
            rw [(ih _).mpr hps] at htail
            cases hok
            cases htail
            rfl

/-- Pulls that do not become tokens bring some, and then one fails. -/
theorem tokens_eq_error {ps : List Pull} {failure : Failure} (h : tokens ps = .error failure) :
    ∃ front p more, ps = front ++ p :: more ∧ Brings front (goodTokens ps) ∧
      p.outcome = .error failure := by
  induction ps with
  | nil => cases h
  | cons p ps ih =>
    cases hp : p.outcome with
    | error failure' =>
      simp only [tokens, hp] at h
      injection h with h
      exact ⟨[], p, ps, rfl, by rw [goodTokens_failing hp]; exact .nil, h ▸ hp⟩
    | ok t =>
      simp only [tokens, hp] at h
      cases htail : tokens ps with
      | ok us =>
        rw [htail] at h
        cases h
      | error failure' =>
        rw [htail] at h
        injection h with h
        obtain ⟨front, q, more, hps, hfront, hq⟩ := ih (by rw [htail, h])
        refine ⟨p :: front, q, more, by rw [hps, List.cons_append], ?_, hq⟩
        simp only [goodTokens, hp]
        exact .cons hp hfront

/-- A failure behind tokens is what the pulls come to. -/
theorem tokens_of_failing {front more : List Pull} {ts : List Token} {p : Pull}
    {failure : Failure} (hfront : Brings front ts) (hp : p.outcome = .error failure) :
    tokens (front ++ p :: more) = .error failure := by
  induction hfront with
  | nil => simp only [List.nil_append, tokens, hp]
  | cons hq _ ih => simp only [List.cons_append, tokens, hq, ih]

end Pull

/-! ## One reading -/

/-- No lexeme stands for the sentinel. -/
theorem Denotes.kind_ne_end {l : List Char} {kind : TokenKind} {value : Value}
    (h : Denotes l kind value) : kind ≠ .endOfInput := by
  cases h with
  | keyword hk _ _ =>
    have hall : ∀ e ∈ TokenKind.keywords, e.2 ≠ .endOfInput := by decide
    exact hall _ hk
  | sign hk =>
    have hall : ∀ e ∈ TokenKind.signs, e.2 ≠ .endOfInput := by decide
    exact hall _ hk
  | true | false | name | integer | real => decide

/-- What is read from the characters in front is a lexeme, whole, or a fault. -/
theorem read_cases (c : Char) (cs : List Char) :
    (∃ l rest kind value, c :: cs = l ++ rest ∧ IsLexeme l ∧ Separated l rest ∧
      (IsDigits l → l.length ≤ maxIntegerDigits) ∧ Denotes l kind value ∧
      Lexeme.read c cs = ⟨l.length, .ok (kind, value)⟩) ∨
    ∃ fault, (Lexeme.read c cs).outcome = .error fault := by
  rcases lexeme_or_fault c cs with ⟨l, rest, heq, hl, hsep⟩ | ⟨fault, hfault⟩
  · by_cases hlength : IsDigits l → l.length ≤ maxIntegerDigits
    · left
      obtain ⟨kind, value, hdenotes⟩ := hl.denotes
      obtain ⟨a, as, rfl, hread⟩ := hdenotes.read hsep hlength
      rw [List.cons_append] at heq
      injection heq with hc hcs
      subst hc hcs
      exact ⟨_, rest, kind, value, List.cons_append, hl, hsep, hlength, hdenotes, hread⟩
    · right
      obtain ⟨hdigits, hlong⟩ := Classical.not_imp.mp hlength
      obtain ⟨a, as, rfl⟩ := List.exists_cons_of_ne_nil hdigits.1
      rw [List.cons_append] at heq
      injection heq with hc hcs
      subst hc hcs
      rw [read_integer hdigits (hsep.number (.inl hdigits))]
      exact ⟨_, if_pos (Nat.not_le.mp hlong)⟩
  · exact .inr ⟨_, hfault⟩

/-- Digits come to less than the power of ten with as many zeros. -/
theorem ofDecimalDigits_lt {l : List Char} (hl : ∀ c ∈ l, c.isDigit = true) :
    ofDecimalDigits l < pow10 l.length := by
  induction l with
  | nil => exact Nat.one_pos
  | cons c l ih =>
    have hc := (code_of_isDigit (hl c List.mem_cons_self)).2
    have hzero : '0'.toNat = 48 := rfl
    have hdigit : c.toNat - '0'.toNat + 1 ≤ 10 := by omega
    unfold ofDecimalDigits at ih ⊢
    rw [Nat.ofDigitChars_cons, Nat.ofDigitChars_eq_ofDigitChars_zero, Nat.mul_zero, Nat.zero_add]
    calc pow10 l.length * (c.toNat - '0'.toNat) + Nat.ofDigitChars 10 l 0
        < pow10 l.length * (c.toNat - '0'.toNat) + pow10 l.length :=
          Nat.add_lt_add_left (ih fun a ha => hl a (List.mem_cons_of_mem c ha)) _
      _ = pow10 l.length * (c.toNat - '0'.toNat + 1) := rfl
      _ ≤ pow10 l.length * 10 := Nat.mul_le_mul_left _ hdigit
      _ = pow10 (c :: l).length := rfl

/-- What is read as a lexeme can be written again. -/
theorem Denotes.isWritable {l : List Char} {kind : TokenKind} {value : Value}
    (h : Denotes l kind value) (hlength : IsDigits l → l.length ≤ maxIntegerDigits) :
    value.IsWritable := by
  cases h with
  | integer hdigits =>
    refine (isWritableInteger_iff _).mpr ?_
    rw [Int.natAbs_natCast]
    exact Nat.lt_of_lt_of_le (ofDecimalDigits_lt hdigits.2) (Double.pow10_mono (hlength hdigits))
  | true | false | keyword | name | real | sign => trivial

namespace Cursor

/-- A token that is read can be written again. -/
theorem scan_isWritable {c : Cursor} {t : Token} (h : c.scan.outcome = .ok t) : t.IsWritable := by
  unfold scan scanLexeme at h
  split at h
  · cases h
    exact trivial
  · next a as hrest =>
    rcases read_cases a as with
      ⟨l, rest, kind, value, -, -, -, hlength, hdenotes, hread⟩ | ⟨fault, hfault⟩
    · simp only [hread, locate] at h
      cases h
      exact hdenotes.isWritable hlength
    · simp only [hfault] at h
      cases fault <;> cases h

/-- Each of the pulls is one reading. -/
theorem exists_of_mem_pulls {c : Cursor} {p : Pull} (h : p ∈ c.pulls) : ∃ c' : Cursor, p = c'.pull := by
  induction c using Cursor.pulls.induct with
  | case1 c htaken =>
    rw [pulls, dif_pos htaken, List.mem_singleton] at h
    exact ⟨c, h⟩
  | case2 c htaken ih =>
    rw [pulls_of_taken htaken, List.mem_cons] at h
    rcases h with rfl | h
    · exact ⟨c, rfl⟩
    · exact ih h

/-- A reading takes at least two frames more than taking a token of a list, and at most four. -/
theorem frames_bounds {c : Cursor} {p : Pull} (h : p ∈ c.pulls) : 5 ≤ p.frames ∧ p.frames ≤ 7 := by
  obtain ⟨c', rfl⟩ := exists_of_mem_pulls h
  show 5 ≤ c'.frames ∧ c'.frames ≤ 7
  unfold frames
  split
  · omega
  · split <;> omega

theorem frames_pos {c : Cursor} {p : Pull} (h : p ∈ c.pulls) : 0 < p.frames :=
  Nat.lt_of_lt_of_le (by decide) (frames_bounds h).1

/-- A reading brings the sentinel exactly if it takes no character. -/
theorem scan_taken {c : Cursor} {t : Token} (h : c.scan.outcome = .ok t) :
    c.scan.taken = 0 ↔ t.kind = .endOfInput := by
  unfold scan scanLexeme at h ⊢
  split at h
  · next hrest =>
    cases h
    exact ⟨fun _ => rfl, fun _ => rfl⟩
  · next a as hrest =>
    rcases read_cases a as with ⟨l, rest, kind, value, -, hl, -, -, hdenotes, hread⟩ | ⟨fault, hfault⟩
    · simp only [hread, locate] at h ⊢
      cases h
      have hpos := hl.length_pos
      exact ⟨fun h => absurd h (by omega), fun h => absurd h hdenotes.kind_ne_end⟩
    · simp only [hfault] at h
      cases fault <;> cases h

/-- Where related cursors bring corresponding pulls and lead to related cursors again, reading again
and again brings corresponding pulls. -/
theorem pulls_map {S : Cursor → Cursor → Prop} {f : Pull → Pull}
    (hstep : ∀ c c', S c c' →
      c'.pull = f c.pull ∧ c'.scan.taken = c.scan.taken ∧ S c.scan.cursor c'.scan.cursor)
    {c c' : Cursor} (h : S c c') : c'.pulls = c.pulls.map f := by
  induction c using Cursor.pulls.induct generalizing c' with
  | case1 c htaken =>
    obtain ⟨hpull, htaken', -⟩ := hstep c c' h
    rw [pulls, dif_pos (htaken'.trans htaken), pulls, dif_pos htaken, hpull]
    rfl
  | case2 c htaken ih =>
    obtain ⟨hpull, htaken', hcursor⟩ := hstep c c' h
    rw [pulls_of_taken (htaken' ▸ htaken), pulls_of_taken htaken, ih hcursor, hpull]
    rfl

theorem pulls_ne_nil (c : Cursor) : c.pulls ≠ [] := by
  rw [pulls]
  split <;> exact List.cons_ne_nil _ _

/-- The tokens that are read can be written again. -/
theorem isWritable_of_brings {c : Cursor} {front rest : List Pull} {ts : List Token}
    (hpulls : c.pulls = front ++ rest) (hfront : Brings front ts) : ∀ t ∈ ts, t.IsWritable := by
  intro t ht
  obtain ⟨ps, p, qs, rfl, hp⟩ := hfront.exists_of_mem ht
  obtain ⟨c', rfl⟩ := exists_of_mem_pulls (c := c) (p := p) (by simp [hpulls])
  exact scan_isWritable hp

/-- The sentinel is brought by the last pull and by no other. -/
theorem pulls_sentinel {c : Cursor} {front rest : List Pull} {p : Pull} {t : Token}
    (hpulls : c.pulls = front ++ p :: rest) (hp : p.outcome = .ok t) :
    t.kind = .endOfInput ↔ rest = [] := by
  induction front generalizing c with
  | nil =>
    rw [pulls] at hpulls
    split at hpulls
    · next htaken =>
      cases hpulls
      exact ⟨fun _ => rfl, fun _ => (scan_taken hp).mp htaken⟩
    · next htaken =>
      cases hpulls
      exact ⟨fun h => absurd ((scan_taken hp).mpr h) htaken, fun h => absurd h (pulls_ne_nil _)⟩
  | cons q front ih =>
    rw [pulls] at hpulls
    split at hpulls
    · injection hpulls with _ hnil
      exact absurd hnil.symm (by simp)
    · injection hpulls with _ htail
      exact ih htail

/-- Tokens that are brought before anything else is brought are no sentinels. -/
theorem kind_ne_end_of_brings {c : Cursor} {front rest : List Pull} {ts : List Token}
    (hpulls : c.pulls = front ++ rest) (hrest : rest ≠ []) (hfront : Brings front ts) :
    ∀ t ∈ ts, t.kind ≠ .endOfInput := by
  intro t ht hk
  obtain ⟨ps, p, qs, rfl, hp⟩ := hfront.exists_of_mem ht
  rw [List.append_assoc, List.cons_append] at hpulls
  have hnil := (pulls_sentinel hpulls hp).mp hk
  exact hrest (List.append_eq_nil_iff.mp hnil).2

/-- Where every pull brings a token, the last one and no other is the sentinel. -/
theorem brings_pulls {c : Cursor} {ts : List Token} (h : Brings c.pulls ts) :
    ∃ us e, ts = us ++ [e] ∧ (∀ t ∈ us, t.kind ≠ .endOfInput) ∧ e.kind = .endOfInput := by
  obtain ⟨front, p, hpulls⟩ := (List.eq_nil_or_concat c.pulls).resolve_left (pulls_ne_nil c)
  rw [List.concat_eq_append] at hpulls
  rw [hpulls] at h
  obtain ⟨us, vs, rfl, hfront, hlast⟩ := h.split
  cases hlast with
  | cons hp hnil =>
    cases hnil
    exact ⟨us, _, rfl, kind_ne_end_of_brings hpulls (List.cons_ne_nil p []) hfront,
      (pulls_sentinel hpulls hp).mpr rfl⟩

end Cursor

end MflFrontend
