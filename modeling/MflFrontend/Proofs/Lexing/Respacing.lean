import MflFrontend.Proofs.Lexing.Gaps

/-!
# Texts that differ in trivia

The trivia at the places where reading stops between two lexemes may be exchanged for others. What
is read then are the same lexemes at other places, and reading halts before the same characters.
-/

namespace MflFrontend

/-- Where the trivia `gap` stood, others may stand: there have to be some, as there may be a lexeme
before them, unless the text starts there or nothing was changed. -/
def MayStandFor (start : Bool) (gap gap' : List Char) : Prop :=
  start = true ∨ gap' = gap ∨ gap' ≠ []

/-- The second text is the first one with other trivia at some of the places where reading stops
between two lexemes. The flag says whether the texts start here. -/
inductive Respaced : Bool → List Char → List Char → Prop where
  /-- Other trivia before a lexeme. -/
  | factor {start : Bool} {gap gap' l rest rest' : List Char} (hgap : Trivia gap (l ++ rest))
      (hgap' : Trivia gap' (l ++ rest')) (hmay : MayStandFor start gap gap') (hl : IsLexeme l)
      (hsep : Separated l rest) (hshort : IsDigits l → l.length ≤ maxIntegerDigits)
      (hrest : Respaced false rest rest') :
      Respaced start (gap ++ (l ++ rest)) (gap' ++ (l ++ rest'))
  /-- Other trivia, or none, at the end. -/
  | stop {start : Bool} {w w' : List Char} (hw : Trivia w []) (hw' : Trivia w' []) :
      Respaced start w w'
  /-- Other trivia before characters that are no token; from there on nothing is changed. -/
  | fault {start : Bool} {gap gap' as : List Char} {a : Char} {fault : ScanFault}
      (hgap : Trivia gap (a :: as)) (hgap' : Trivia gap' (a :: as)) (hmay : MayStandFor start gap gap')
      (hfront : triviaLength false (a :: as) = 0)
      (hfault : (Lexeme.read a as).outcome = .error fault) :
      Respaced start (gap ++ a :: as) (gap' ++ a :: as)

/-- Two tokens that differ at most in their places. -/
structure Token.Alike (t t' : Token) : Prop where
  /-- They are of one kind. -/
  kind : t.kind = t'.kind
  /-- They carry the same value. -/
  value : t.value = t'.value

/-- Two failures of one kind with the same text apart from the line. -/
inductive Failure.SameText : Failure → Failure → Prop where
  /-- Rejections with the same message. -/
  | rejected {e e' : ParseError} (h : e.message = e'.message) : SameText (.rejected e) (.rejected e')
  /-- Integer literals that are too long by as much. -/
  | integerTooLong (digits : Nat) : SameText (.integerTooLong digits) (.integerTooLong digits)

theorem Token.Alike.symm {t t' : Token} (h : t.Alike t') : t'.Alike t := ⟨h.kind.symm, h.value.symm⟩

theorem Token.Alike.describeFound {t t' : Token} (h : t.Alike t') :
    t.describeFound = t'.describeFound := by
  unfold Token.describeFound Token.display
  rw [h.kind, h.value]

theorem Token.Alike.isWritable_iff {t t' : Token} (h : t.Alike t') :
    t.IsWritable ↔ t'.IsWritable := by
  unfold Token.IsWritable
  rw [h.value]

theorem Token.Alike.isDescribable_iff {t t' : Token} (h : t.Alike t') :
    t.IsDescribable ↔ t'.IsDescribable := by
  unfold Token.IsDescribable
  rw [h.kind, h.isWritable_iff]

/-- Behind a lexeme, the texts begin alike, or the second with trivia. -/
theorem MayStandFor.head {gap gap' rest rest' : List Char} (h : MayStandFor false gap gap')
    (hgap' : Trivia gap' rest') (hhead : rest'.head? = rest.head?) :
    ∀ c, (gap' ++ rest').head? = some c → OpensTrivia c ∨ (gap ++ rest).head? = some c := by
  intro c hc
  cases gap' with
  | nil =>
    rcases h with h | h | h
    · cases h
    · rw [← h]
      exact .inr (hhead ▸ hc)
    · exact absurd rfl h
  | cons a gap' => exact .inl (hgap'.opens hc)

namespace Respaced

theorem head {text text' : List Char} (h : Respaced false text text') :
    ∀ c, text'.head? = some c → OpensTrivia c ∨ text.head? = some c := by
  generalize hstart : false = start at h
  cases h with
  | @factor _ gap gap' l rest rest' _ hgap' hmay hl _ _ _ =>
    obtain ⟨a, l, rfl⟩ := List.exists_cons_of_ne_nil hl.ne_nil
    exact (hstart ▸ hmay).head hgap' rfl
  | stop _ hw' =>
    intro c hc
    exact .inl (hw'.opens hc)
  | fault _ hgap' hmay _ _ => exact (hstart ▸ hmay).head hgap' rfl

/-- Both texts fall into factors with the same lexemes, and reading halts before the same
characters. -/
theorem factors {start : Bool} {text text' : List Char} (h : Respaced start text text') :
    ∃ fs fs' w w' r, Factors text fs (w ++ r) ∧ Factors text' fs' (w' ++ r) ∧
      fs.map Factor.lexeme = fs'.map Factor.lexeme ∧ ShortIntegers fs ∧ Trivia w r ∧ Trivia w' r ∧
      Halts r := by
  have hempty : ShortIntegers [] := fun f hf => absurd hf List.not_mem_nil
  induction h with
  | @factor start gap gap' l rest rest' hgap hgap' hmay hl hsep hshort hrest ih =>
    obtain ⟨fs, fs', w, w', r, hfs, hfs', hlexemes, hshorts, hw, hw', hr⟩ := ih
    refine ⟨⟨gap, l⟩ :: fs, ⟨gap', l⟩ :: fs', w, w', r, .cons hgap hl hsep hfs,
      .cons hgap' hl (hsep.change hrest.head) hfs', ?_, fun f hf => ?_, hw, hw', hr⟩
    · rw [List.map_cons, List.map_cons, hlexemes]
    · rcases List.mem_cons.mp hf with rfl | hf
      · exact hshort
      · exact hshorts f hf
  | @stop start w w' hw hw' =>
    refine ⟨[], [], w, w', [], ?_, ?_, rfl, hempty, hw, hw', .stop⟩
    · rw [List.append_nil]
      exact .nil
    · rw [List.append_nil]
      exact .nil
  | fault hgap hgap' _ hfront hfault =>
    exact ⟨[], [], _, _, _, .nil, .nil, rfl, hempty, hgap, hgap', .fault hfront hfault⟩

end Respaced

theorem ShortIntegers.of_lexemes {fs fs' : List Factor} (h : ShortIntegers fs)
    (hlexemes : fs.map Factor.lexeme = fs'.map Factor.lexeme) : ShortIntegers fs' := by
  intro f hf
  have hmem : f.lexeme ∈ fs.map Factor.lexeme := hlexemes ▸ List.mem_map_of_mem hf
  obtain ⟨g, hg, hlexeme⟩ := List.mem_map.mp hmem
  exact hlexeme ▸ h g hg

/-- The same lexemes stand for tokens that differ at most in their places. -/
theorem TokensOf.respaced {before last : List Char} {fs : List Factor} {us : List Token} {e : Token}
    (h : TokensOf before fs last (us ++ [e])) {fs' : List Factor}
    (hlexemes : fs.map Factor.lexeme = fs'.map Factor.lexeme) (before' last' : List Char) :
    ∃ us' e', TokensOf before' fs' last' (us' ++ [e']) ∧ List.Forall₂ Token.Alike us us' ∧
      e.Alike e' := by
  generalize htokens : us ++ [e] = ts at h
  induction h generalizing us fs' before' with
  | nil =>
    obtain ⟨rfl, ⟨⟩⟩ := List.append_inj' (htokens.trans (List.nil_append _).symm) rfl
    rw [List.map_nil, eq_comm, List.map_eq_nil_iff] at hlexemes
    subst hlexemes
    exact ⟨[], _, .nil, .nil, ⟨rfl, rfl⟩⟩
  | @cons before gap l last fs kind value ts hdenotes hts ih =>
    obtain ⟨us, e', rfl⟩ := hts.concat
    obtain ⟨rfl, ⟨⟩⟩ := List.append_inj' (htokens.trans (List.cons_append).symm) rfl
    cases fs' with
    | nil => cases hlexemes
    | cons f fs' =>
      obtain ⟨gap', l'⟩ := f
      injection hlexemes with hl hlexemes
      change l = l' at hl
      subst hl
      obtain ⟨us', e', hts', hus, he⟩ := ih hlexemes (before' ++ gap' ++ l) rfl
      exact ⟨_ :: us', e', .cons hdenotes hts', .cons ⟨rfl, rfl⟩ hus, he⟩

/-- Faults of one kind are the same text on any line. -/
theorem ScanFault.sameText (fault : ScanFault) (line line' : Int) :
    Failure.SameText (fault.failureAt line) (fault.failureAt line') := by
  cases fault with
  | lexical fault => exact .rejected rfl
  | integerTooLong digits => exact .integerTooLong digits

/-- Texts that differ in trivia become tokens that differ in their places, or both fail, behind such
tokens, with the same text. -/
theorem Respaced.tokens {t t' : String} (h : Respaced true t.toList t'.toList) :
    (∃ us e us' e', tokenize t = .ok (us ++ [e]) ∧
      tokenize t' = .ok (us' ++ [e']) ∧
      List.Forall₂ Token.Alike us us' ∧ e.Alike e') ∨
    ∃ f f', tokenize t = .error f ∧ tokenize t' = .error f' ∧
      Failure.SameText f f' ∧
      List.Forall₂ Token.Alike (Pull.goodTokens (Cursor.start t).pulls)
        (Pull.goodTokens (Cursor.start t').pulls) := by
  obtain ⟨fs, fs', w, w', r, hfs, hfs', hlexemes, hshort, hw, hw', hr⟩ := h.factors
  have hshort' : ShortIntegers fs' := hshort.of_lexemes hlexemes
  obtain ⟨ts, hts⟩ := hfs.exists_tokens [] w
  obtain ⟨us, e, rfl⟩ := hts.concat
  obtain ⟨us', e', hts', hus, he⟩ := hts.respaced hlexemes [] w'
  cases hr with
  | stop =>
    rw [List.append_nil] at hfs hfs'
    exact .inl ⟨us, e, us', e', hfs.tokenize_ok hw hshort hts, hfs'.tokenize_ok hw' hshort' hts',
      hus, he⟩
  | @fault a as fault hfront hfault =>
    obtain ⟨hgood, passed, -, hfails⟩ := hfs.fails_behind hshort hw hfront hfault hts
    obtain ⟨hgood', passed', -, hfails'⟩ := hfs'.fails_behind hshort' hw' hfront hfault hts'
    rw [hgood, hgood']
    exact .inr ⟨_, _, hfails, hfails', fault.sameText (lineAt passed) (lineAt passed'), hus⟩

end MflFrontend
