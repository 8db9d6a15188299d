import Mathlib
import MflFrontend.Proofs.Lexing.Munch

/-!
# The lexer recognises its grammar

Trivia are skipped as far as they go, and the lexeme behind them is read whole, so that reading
again and again finds the factors of a text one after the other. A text that has no factors down to
its end makes the first reading fail that finds neither a lexeme nor the end.
-/

namespace MflFrontend

/-! ## Trivia -/

theorem triviaLength_blank {c : Char} (h : isTriviaBlank c = true) (cs : List Char) :
    triviaLength false (c :: cs) = triviaLength false cs + 1 := by
  simp [triviaLength, h]

theorem triviaLength_sharp (cs : List Char) :
    triviaLength false ('#' :: cs) = triviaLength true cs + 1 := rfl

theorem triviaLength_front {c : Char} (hblank : isTriviaBlank c = false) (hsharp : c ≠ '#')
    (cs : List Char) : triviaLength false (c :: cs) = 0 := by
  simp [triviaLength, hblank, hsharp]

theorem triviaLength_comment {c : Char} (h : c ≠ '\n') (cs : List Char) :
    triviaLength true (c :: cs) = triviaLength true cs + 1 := by
  have hopen : (c != '\n') = true := by simpa using h
  rw [triviaLength, hopen, if_pos rfl]

theorem triviaLength_body {body rest : List Char} (hbody : ∀ c ∈ body, c ≠ '\n') :
    triviaLength true (body ++ rest) = body.length + triviaLength true rest := by
  induction body with
  | nil => rw [List.nil_append, List.length_nil, Nat.zero_add]
  | cons c body ih =>
    obtain ⟨hc, hbody⟩ := List.forall_mem_cons.mp hbody
    rw [List.cons_append, triviaLength_comment hc, ih hbody, List.length_cons]
    omega

/-- A comment is over before a line feed, and at the end. -/
theorem triviaLength_comment_end {rest : List Char} (h : ∀ c, rest.head? = some c → c = '\n') :
    triviaLength true rest = triviaLength false rest := by
  cases rest with
  | nil => rfl
  | cons c rest =>
    obtain rfl := h c rfl
    rfl

/-- Trivia are counted whole, whatever follows. -/
theorem Trivia.triviaLength_append {w rest : List Char} (h : Trivia w rest) :
    triviaLength false (w ++ rest) = w.length + triviaLength false rest := by
  induction h with
  | nil => rw [List.nil_append, List.length_nil, Nat.zero_add]
  | @blank c w rest hc _ ih =>
    rw [List.cons_append, triviaLength_blank hc, ih, List.length_cons]
    omega
  | @comment body w rest hbody hend _ ih =>
    rw [List.cons_append, triviaLength_sharp, List.append_assoc, triviaLength_body hbody,
      triviaLength_comment_end hend, ih, List.length_cons, List.length_append]
    omega

/-- What stands in front of a text is trivia as far as they are counted, inside a comment too. -/
theorem trivia_split (cs : List Char) :
    (∃ w rest, cs = w ++ rest ∧ Trivia w rest ∧ triviaLength false rest = 0) ∧
    ∃ body w rest, cs = body ++ (w ++ rest) ∧ (∀ c ∈ body, c ≠ '\n') ∧
      (∀ c, (w ++ rest).head? = some c → c = '\n') ∧ Trivia w rest ∧
      triviaLength false rest = 0 := by
  induction cs with
  | nil =>
    refine ⟨⟨[], [], rfl, .nil, rfl⟩, [], [], [], rfl, by simp, by simp, .nil, rfl⟩
  | cons c cs ih =>
    obtain ⟨⟨w, rest, hcs, hw, hrest⟩, body, w', rest', hcs', hbody, hend, hw', hrest'⟩ := ih
    -- behind the sign that opens a comment the text goes on as inside of one
    have houtside : ∃ v r, c :: cs = v ++ r ∧ Trivia v r ∧ triviaLength false r = 0 := by
      by_cases hblank : isTriviaBlank c = true
      · exact ⟨c :: w, rest, by rw [hcs, List.cons_append], .blank hblank hw, hrest⟩
      · by_cases hsharp : c = '#'
        · refine ⟨'#' :: (body ++ w'), rest', ?_, .comment hbody hend hw', hrest'⟩
          rw [hsharp, hcs', List.cons_append, List.append_assoc]
        · rw [Bool.not_eq_true] at hblank
          exact ⟨[], c :: cs, rfl, .nil, triviaLength_front hblank hsharp cs⟩
    refine ⟨houtside, ?_⟩
    by_cases hfeed : c = '\n'
    · obtain ⟨v, r, hv, htrivia, hr⟩ := houtside
      refine ⟨[], v, r, hv, by simp, fun a ha => ?_, htrivia, hr⟩
      rw [← hv] at ha
      injection ha with ha
      rw [← ha, hfeed]
    · refine ⟨c :: body, w', rest', by rw [hcs', List.cons_append], ?_, hend, hw', hrest'⟩
      exact List.forall_mem_cons.mpr ⟨hfeed, hbody⟩

theorem IsLexeme.length_pos {l : List Char} (h : IsLexeme l) : 0 < l.length := by
  have hend : Separated l [] := ⟨fun _ => nofun, fun _ => nofun, fun _ => nofun⟩
  obtain ⟨c, cs, rfl, -⟩ := h.length_read hend
  exact Nat.succ_pos _

/-- A lexeme does not begin with trivia. -/
theorem IsLexeme.triviaLength_append {l : List Char} (h : IsLexeme l) (rest : List Char) :
    triviaLength false (l ++ rest) = 0 := by
  obtain ⟨c, cs, rfl⟩ := List.exists_cons_of_length_pos h.length_pos
  have hopens : ¬ (isTriviaBlank c = true ∨ c = '#') := h.not_opensTrivia List.mem_cons_self
  rw [not_or, Bool.not_eq_true] at hopens
  exact triviaLength_front hopens.1 hopens.2 _

/-! ## One reading -/

namespace Cursor

/-- A cursor that passes what stands in front is before what stands behind it. -/
theorem rest_pass_left {c : Cursor} {w behind : List Char} (hrest : c.rest = w ++ behind) :
    (c.pass w.length).rest = behind := by
  rw [rest_pass, hrest, List.drop_left]

theorem skipTrivia_eq {c : Cursor} {gap behind : List Char} (hrest : c.rest = gap ++ behind)
    (hgap : Trivia gap behind) (hfront : triviaLength false behind = 0) :
    c.skipTrivia = c.pass gap.length ∧ (c.pass gap.length).rest = behind := by
  have hcount : triviaLength false c.rest = gap.length := by
    rw [hrest, hgap.triviaLength_append, hfront, Nat.add_zero]
  constructor
  · unfold skipTrivia
    rw [hcount]
  · exact rest_pass_left hrest

/-- Reading skips the trivia in front and takes what is read behind them. -/
theorem scan_front {c : Cursor} {gap as : List Char} {a : Char} (hrest : c.rest = gap ++ a :: as)
    (hgap : Trivia gap (a :: as)) (hfront : triviaLength false (a :: as) = 0) :
    c.scan = ⟨(c.pass gap.length).locate (Lexeme.read a as).outcome, (Lexeme.read a as).length,
      (c.pass gap.length).pass (Lexeme.read a as).length⟩ := by
  obtain ⟨hskip, hbehind⟩ := skipTrivia_eq hrest hgap hfront
  unfold scan
  rw [hskip]
  unfold scanLexeme
  rw [hbehind]

/-- Reading takes the lexeme behind the trivia. -/
theorem scan_factor {c : Cursor} {gap l rest : List Char} {kind : TokenKind} {value : Value}
    (hrest : c.rest = gap ++ (l ++ rest)) (hgap : Trivia gap (l ++ rest)) (hl : IsLexeme l)
    (hsep : Separated l rest) (hdenotes : Denotes l kind value)
    (hlength : IsDigits l → l.length ≤ maxIntegerDigits) :
    c.scan.outcome =
        .ok ⟨kind, value, (c.pass gap.length).line, (c.pass gap.length).column⟩ ∧
      c.scan.taken = l.length ∧ c.scan.cursor = (c.pass gap.length).pass l.length := by
  have hfront := hl.triviaLength_append rest
  obtain ⟨a, as, rfl, hread⟩ := hdenotes.read hsep hlength
  rw [List.cons_append] at hrest hgap hfront
  rw [scan_front hrest hgap hfront, hread]
  exact ⟨rfl, rfl, rfl⟩

/-- Reading finds the end behind the last trivia. -/
theorem scan_end {c : Cursor} (hlast : Trivia c.rest []) :
    c.scan = ⟨.ok (c.pass c.rest.length).sentinel, 0, c.pass c.rest.length⟩ := by
  obtain ⟨hskip, hbehind⟩ := skipTrivia_eq (List.append_nil c.rest).symm hlast rfl
  unfold scan
  rw [hskip]
  unfold scanLexeme
  rw [hbehind]

theorem scan_fault {c : Cursor} {gap as : List Char} {a : Char} {fault : LexFault}
    (hrest : c.rest = gap ++ a :: as) (hgap : Trivia gap (a :: as))
    (hfront : triviaLength false (a :: as) = 0)
    (hread : (Lexeme.read a as).outcome = .error (.lexical fault)) :
    c.scan.outcome = .error (.rejected (.lexical fault (c.pass gap.length).line)) := by
  rw [scan_front hrest hgap hfront, hread]
  rfl

/-! ## Reading again and again -/

theorem pulls_eq (c : Cursor) :
    c.pulls = c.pull :: if c.scan.taken = 0 then [] else c.scan.cursor.pulls := by
  rw [pulls]
  split <;> rfl

theorem pulls_of_taken {c : Cursor} (h : c.scan.taken ≠ 0) :
    c.pulls = c.pull :: c.scan.cursor.pulls := by
  rw [pulls_eq, if_neg h]

theorem tokens_pulls_of_ok {c : Cursor} {t : Token} (h : c.scan.outcome = .ok t)
    (htaken : c.scan.taken ≠ 0) :
    Pull.tokens c.pulls = (Pull.tokens c.scan.cursor.pulls).map (t :: ·) := by
  rw [pulls_of_taken htaken, Pull.tokens]
  simp only [pull, h]
  cases Pull.tokens c.scan.cursor.pulls <;> rfl

theorem tokens_pulls_of_error {c : Cursor} {failure : Failure}
    (h : c.scan.outcome = .error failure) : Pull.tokens c.pulls = .error failure := by
  rw [pulls]
  split
  · simp only [Pull.tokens, pull, h]
  · simp only [Pull.tokens, pull, h]

theorem tokens_pulls_of_end {c : Cursor} {t : Token} (h : c.scan.outcome = .ok t)
    (htaken : c.scan.taken = 0) : Pull.tokens c.pulls = .ok [t] := by
  rw [pulls, dif_pos htaken]
  simp only [Pull.tokens, pull, h]

end Cursor

/-! ## Factors and tokens -/

/-- The integer literals among the factors are short enough to be converted. -/
def ShortIntegers (fs : List Factor) : Prop :=
  ∀ f ∈ fs, IsDigits f.lexeme → f.lexeme.length ≤ maxIntegerDigits

theorem Factors.exists_tokens {text last : List Char} {fs : List Factor}
    (h : Factors text fs last) (before final : List Char) :
    ∃ ts, TokensOf before fs final ts := by
  induction h generalizing before with
  | nil => exact ⟨_, .nil⟩
  | @cons gap lexeme rest last fs hgap hlexeme hsep _ ih =>
    obtain ⟨kind, value, hdenotes⟩ := hlexeme.denotes
    obtain ⟨ts, hts⟩ := ih (before ++ gap ++ lexeme)
    exact ⟨_, .cons hdenotes hts⟩

theorem Cursor.location_pass {c : Cursor} {before cs rest : List Char}
    (hat : c.toLocation = locationAt before) (hrest : c.rest = cs ++ rest) :
    (c.pass cs.length).toLocation = locationAt (before ++ cs) := by
  unfold Cursor.pass
  simp only
  rw [hrest, List.take_left, hat, locationAt_afterAll]

/-- How many frames it takes to read the token behind the trivia. -/
def gapFrames (gap : List Char) : Nat := if '#' ∈ gap then 7 else 6

/-- The pull that brings the token of a factor. -/
def factorPull (before gap lexeme : List Char) (t : Token) : Pull :=
  ⟨.ok t, lineAt (before ++ gap ++ lexeme), gapFrames gap⟩

theorem Cursor.frames_front {c : Cursor} {gap behind : List Char} (hrest : c.rest = gap ++ behind)
    (hgap : Trivia gap behind) (hfront : triviaLength false behind = 0) (hne : behind ≠ []) :
    c.frames = gapFrames gap := by
  have htrivia : c.trivia = gap := by
    rw [trivia, hrest, hgap.triviaLength_append, hfront, Nat.add_zero, List.take_left]
  have hrest_ne : c.rest ≠ [] := by
    rw [hrest]
    exact List.append_ne_nil_of_right_ne_nil gap hne
  rw [frames, if_neg hrest_ne, htrivia, gapFrames]

/-- Where a factor stands in front, the first pull brings its token, and the others are what a cursor
behind the factor pulls. -/
theorem Cursor.pulls_factor {before gap l rest : List Char} {kind : TokenKind} {value : Value}
    {c : Cursor} (hat : c.toLocation = locationAt before) (hrest : c.rest = gap ++ (l ++ rest))
    (hgap : Trivia gap (l ++ rest)) (hl : IsLexeme l) (hsep : Separated l rest)
    (hdenotes : Denotes l kind value) (hlength : IsDigits l → l.length ≤ maxIntegerDigits) :
    ∃ c' : Cursor, c.pulls = factorPull before gap l
        ⟨kind, value, lineAt (before ++ gap), columnAt (before ++ gap)⟩ :: c'.pulls ∧
      c'.rest = rest ∧ c'.toLocation = locationAt (before ++ gap ++ l) := by
  obtain ⟨houtcome, htaken, hcursor⟩ := scan_factor hrest hgap hl hsep hdenotes hlength
  have hgapAt := location_pass hat hrest
  have hbehind : (c.pass gap.length).rest = l ++ rest := rest_pass_left hrest
  have hlexemeAt := hcursor ▸ location_pass hgapAt hbehind
  rw [hgapAt] at houtcome
  have hne : c.scan.taken ≠ 0 := by
    rw [htaken]
    exact Nat.ne_of_gt hl.length_pos
  have hframes : c.frames = gapFrames gap :=
    frames_front hrest hgap (hl.triviaLength_append rest)
      (List.append_ne_nil_of_left_ne_nil (List.ne_nil_of_length_pos hl.length_pos) rest)
  have hline : c.scan.cursor.line = lineAt (before ++ gap ++ l) := by rw [hlexemeAt]; rfl
  refine ⟨c.scan.cursor, ?_, ?_, hlexemeAt⟩
  · rw [pulls_of_taken hne, pull, houtcome, hline, hframes]
    rfl
  · rw [hcursor, rest_pass_left hbehind]

/-- Reading again and again gives the tokens of the factors, each where its lexeme starts. -/
theorem Factors.tokens_pulls {text last : List Char} {fs : List Factor} (h : Factors text fs last)
    (hlast : Trivia last []) (hshort : ShortIntegers fs) {before : List Char} {c : Cursor}
    (hat : c.toLocation = locationAt before) (hrest : c.rest = text) {ts : List Token}
    (hts : TokensOf before fs last ts) : Pull.tokens c.pulls = .ok ts := by
  induction h generalizing before c ts with
  | nil =>
    subst hrest
    cases hts with
    | nil =>
      have hscan := Cursor.scan_end hlast
      have hend := Cursor.location_pass hat (List.append_nil c.rest).symm
      have hsentinel : (c.pass c.rest.length).sentinel =
          ⟨.endOfInput, .none, lineAt (before ++ c.rest), columnAt (before ++ c.rest)⟩ := by
        unfold Cursor.sentinel
        rw [hend]
        rfl
      rw [hsentinel] at hscan
      exact Cursor.tokens_pulls_of_end (by rw [hscan]) (by rw [hscan])
  | @cons gap l rest last fs hgap hl hsep _ ih =>
    cases hts with
    | @cons _ _ _ _ _ kind value ts hdenotes hts =>
      obtain ⟨c', hpulls, hnext, hat'⟩ :=
        Cursor.pulls_factor hat hrest hgap hl hsep hdenotes (hshort _ List.mem_cons_self)
      have htail := ih hlast (fun f hf => hshort f (List.mem_cons_of_mem _ hf)) hat' hnext hts
      rw [hpulls, Pull.tokens]
      simp only [factorPull, htail]

/-- A text that is factors down to its end becomes their tokens. -/
theorem Factors.tokenize_ok {text : String} {last : List Char} {fs : List Factor}
    (h : Factors text.toList fs last) (hlast : Trivia last []) (hshort : ShortIntegers fs)
    {ts : List Token} (hts : TokensOf [] fs last ts) : tokenize text = .ok ts :=
  h.tokens_pulls hlast hshort rfl rfl hts

/-- A text falls into factors, or a reading comes to an integer literal that is too long, or to a
lexical fault. -/
theorem factors_or_failure (c : Cursor) :
    (∃ fs last, Factors c.rest fs last ∧ Trivia last []) ∨
    (∃ fs last, Factors c.rest fs last ∧ ¬ ShortIntegers fs) ∨
    ∃ e, Pull.tokens c.pulls = .error (.rejected e) := by
  induction hn : c.rest.length using Nat.strongRecOn generalizing c with
  | ind n ih =>
    obtain ⟨⟨gap, behind, hrest, hgap, hfront⟩, -⟩ := trivia_split c.rest
    cases behind with
    | nil =>
      rw [List.append_nil] at hrest
      exact .inl ⟨[], gap, hrest ▸ .nil, hgap⟩
    | cons a as =>
      rcases lexeme_or_fault a as with ⟨l, rest, heq, hl, hsep⟩ | ⟨fault, hfault⟩
      · rw [heq] at hrest hgap
        -- no token comes of an integer literal that is too long; the factors end with it
        by_cases hlength : IsDigits l → l.length ≤ maxIntegerDigits
        · obtain ⟨kind, value, hdenotes⟩ := hl.denotes
          obtain ⟨houtcome, htaken, hcursor⟩ :=
            Cursor.scan_factor hrest hgap hl hsep hdenotes hlength
          have hpos := hl.length_pos
          have hnext : c.scan.cursor.rest = rest := by
            rw [hcursor, Cursor.rest_pass_left (Cursor.rest_pass_left hrest)]
          have hshorter : c.scan.cursor.rest.length < n := by
            rw [hnext, ← hn, hrest, List.length_append, List.length_append]
            omega
          rcases ih _ hshorter c.scan.cursor rfl with
            ⟨fs, last, hfs, hlast⟩ | ⟨fs, last, hfs, hlong⟩ | ⟨e, he⟩
          · rw [hnext] at hfs
            exact .inl ⟨⟨gap, l⟩ :: fs, last, hrest ▸ .cons hgap hl hsep hfs, hlast⟩
          · rw [hnext] at hfs
            refine .inr (.inl ⟨⟨gap, l⟩ :: fs, last, hrest ▸ .cons hgap hl hsep hfs, fun h => ?_⟩)
            exact hlong fun f hf => h f (List.mem_cons_of_mem _ hf)
          · refine .inr (.inr ⟨e, ?_⟩)
            rw [Cursor.tokens_pulls_of_ok houtcome (by omega), he]
            rfl
        · refine .inr (.inl ⟨[⟨gap, l⟩], rest, hrest ▸ .cons hgap hl hsep .nil, fun h => ?_⟩)
          exact hlength (h _ List.mem_cons_self)
      · exact .inr (.inr ⟨_, Cursor.tokens_pulls_of_error (Cursor.scan_fault hrest hgap hfront hfault)⟩)

/-- A text falls into factors in one way only. -/
theorem Factors.unique {text last last' : List Char} {fs fs' : List Factor}
    (h : Factors text fs last) (hlast : Trivia last []) (h' : Factors text fs' last')
    (hlast' : Trivia last' []) : fs = fs' ∧ last = last' := by
  have hnil : ∀ {gap l rest}, Trivia gap (l ++ rest) → IsLexeme l →
      ¬ Trivia (gap ++ (l ++ rest)) [] := by
    intro gap l rest hgap hl hall
    have hcount := hall.triviaLength_append
    rw [List.append_nil, hgap.triviaLength_append, hl.triviaLength_append] at hcount
    have hpos := hl.length_pos
    simp at hcount
    omega
  induction h generalizing fs' with
  | nil =>
    cases h' with
    | nil => exact ⟨rfl, rfl⟩
    | cons hgap hl _ _ => exact absurd hlast (hnil hgap hl)
  | @cons gap l rest last fs hgap hl hsep _ ih =>
    generalize htext : gap ++ (l ++ rest) = text at h'
    cases h' with
    | nil =>
      rw [← htext] at hlast'
      exact absurd hlast' (hnil hgap hl)
    | @cons gap' l' rest' last' fs' hgap' hl' hsep' hfs' =>
      -- the gaps are as long as the trivia in front, the lexemes as what is read behind these
      have hcount := congrArg (triviaLength false) htext
      rw [hgap.triviaLength_append, hgap'.triviaLength_append, hl.triviaLength_append,
        hl'.triviaLength_append] at hcount
      obtain ⟨rfl, hbehind⟩ := List.append_inj htext (by omega)
      obtain ⟨a, as, rfl, hlen⟩ := hl.length_read hsep
      obtain ⟨a', as', rfl, hlen'⟩ := hl'.length_read hsep'
      rw [List.cons_append, List.cons_append] at hbehind
      injection hbehind with ha has
      rw [ha, has, hlen'] at hlen
      have hsplit : (a :: as) ++ rest = (a' :: as') ++ rest' := by
        rw [List.cons_append, List.cons_append, ha, has]
      obtain ⟨heq, rfl⟩ := List.append_inj hsplit hlen.symm
      obtain ⟨rfl, rfl⟩ := ih hlast hfs'
      rw [heq]
      exact ⟨rfl, rfl⟩

theorem Factors.length_le {text rest : List Char} {fs : List Factor} (h : Factors text fs rest) :
    ∀ f ∈ fs, f.lexeme.length ≤ text.length := by
  induction h with
  | nil => simp
  | @cons gap lexeme rest last fs _ _ _ _ ih =>
    intro f hf
    rw [List.length_append, List.length_append]
    rcases List.mem_cons.mp hf with rfl | hf
    · show lexeme.length ≤ _
      omega
    · have hle := ih f hf
      omega

/-- A text without integer literals that are too long becomes tokens exactly if it falls into
factors down to its end, which it does in one way only, and the tokens are those of the factors;
any other text is rejected. -/
theorem tokenize_recognizes (text : String)
    (hshort : ∀ fs rest, Factors text.toList fs rest → ShortIntegers fs) :
    ((∃ ts, tokenize text = .ok ts) ↔ ∃ fs last, Factors text.toList fs last ∧ Trivia last []) ∧
    ((¬ ∃ fs last, Factors text.toList fs last ∧ Trivia last []) →
      ∃ e, tokenize text = .error (.rejected e)) ∧
    (∀ fs last fs' last', Factors text.toList fs last → Trivia last [] →
      Factors text.toList fs' last' → Trivia last' [] → fs = fs' ∧ last = last') ∧
    ∀ fs last, Factors text.toList fs last → Trivia last [] →
      ∀ ts, tokenize text = .ok ts ↔ TokensOf [] fs last ts := by
  have hstart : (Cursor.start text).toLocation = locationAt [] := rfl
  have htokens : ∀ fs last, Factors text.toList fs last → Trivia last [] →
      ∀ ts, TokensOf [] fs last ts → tokenize text = .ok ts := fun fs last hfs hlast ts hts =>
    hfs.tokens_pulls hlast (hshort fs last hfs) hstart rfl hts
  have hcases : (∃ fs last, Factors text.toList fs last ∧ Trivia last []) ∨
      ∃ e, tokenize text = .error (.rejected e) := by
    rcases factors_or_failure (Cursor.start text) with hfs | ⟨fs, rest, hfs, hlong⟩ | he
    · exact .inl hfs
    · exact absurd (hshort fs rest hfs) hlong
    · exact .inr he
  refine ⟨⟨?_, ?_⟩, ?_, ?_, ?_⟩
  · rintro ⟨ts, hts⟩
    rcases hcases with hfs | ⟨e, he⟩
    · exact hfs
    · rw [hts] at he
      cases he
  · rintro ⟨fs, last, hfs, hlast⟩
    obtain ⟨ts, hts⟩ := hfs.exists_tokens [] last
    exact ⟨ts, htokens fs last hfs hlast ts hts⟩
  · intro hnone
    exact hcases.resolve_left hnone
  · intro fs last fs' last' hfs hlast hfs' hlast'
    exact hfs.unique hlast hfs' hlast'
  · intro fs last hfs hlast ts
    constructor
    · intro hok
      obtain ⟨ts', hts'⟩ := hfs.exists_tokens [] last
      have hok' := htokens fs last hfs hlast ts' hts'
      rw [hok] at hok'
      injection hok' with hts
      exact hts ▸ hts'
    · exact htokens fs last hfs hlast ts

/-- A text with a comment between two lexemes. -/
def sampleText : String := "x1<= 20 # more\n;"

/-- The tokens of the sample. -/
def sampleTextTokens : List Token :=
  [⟨.ident, .text "x1", 1, 1⟩, ⟨.lessEq, .text "<=", 1, 3⟩, ⟨.intLit, .int 20, 1, 6⟩,
    ⟨.semicolon, .text ";", 2, 1⟩, ⟨.endOfInput, .none, 2, 2⟩]

/-- The sample falls into the factors of its tokens. -/
theorem sampleText_recognized :
    (∀ fs rest, Factors sampleText.toList fs rest → ShortIntegers fs) ∧
    ∃ fs last, Factors sampleText.toList fs last ∧ Trivia last [] ∧
      TokensOf [] fs last sampleTextTokens := by
  have hshort : ∀ fs rest, Factors sampleText.toList fs rest → ShortIntegers fs := by
    intro fs rest hfs f hf _
    exact Nat.le_trans (hfs.length_le f hf) (by decide)
  have htokens : tokenize sampleText = .ok sampleTextTokens := by cbv
  obtain ⟨hiff, -, -, hexact⟩ := tokenize_recognizes sampleText hshort
  obtain ⟨fs, last, hfs, hlast⟩ := hiff.mp ⟨_, htokens⟩
  exact ⟨hshort, fs, last, hfs, hlast, (hexact fs last hfs hlast _).mp htokens⟩

end MflFrontend
