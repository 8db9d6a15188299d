import MflFrontend.Proofs.Lexing.Concatenation
import MflFrontend.Proofs.Lexing.Stripping

/-!
# Texts as lists of lines

A line feed stands in no token, so the tokens of a text are those of its lines, one line after the
other. Lines can therefore be read one at a time, or several at once as a text of their own, with or
without the blanks at its ends: the tokens differ in their places alone.
-/

namespace MflFrontend

/-- The text becomes the tokens, and a sentinel. -/
def HasTokens (text : String) (ws : List Token) : Prop := ∃ e, tokenize text = .ok (ws ++ [e])

theorem Token.Alike.refl (t : Token) : t.Alike t := ⟨rfl, rfl⟩

theorem Token.Alike.shift {t t' : Token} (h : t.Alike t') (d : Int) : t.Alike (t'.shift d) :=
  ⟨h.kind, h.value⟩

/-- Lists of tokens that differ in places, one from the next, differ in places. -/
theorem alike_trans {ts us vs : List Token} (h : List.Forall₂ Token.Alike ts us)
    (h' : List.Forall₂ Token.Alike us vs) : List.Forall₂ Token.Alike ts vs := by
  induction h generalizing vs with
  | nil => exact h'
  | cons ht _ ih =>
    cases h' with
    | cons hu hus => exact .cons ⟨ht.kind.trans hu.kind, ht.value.trans hu.value⟩ (ih hus)

theorem alike_concat {ts us : List Token} {t : Token} (h : List.Forall₂ Token.Alike (ts ++ [t]) us) :
    ∃ vs u, us = vs ++ [u] ∧ t.Alike u := by
  obtain ⟨vs, ws, rfl, -, hlast⟩ := forall₂_append_left h
  cases hlast with
  | cons ht hnil =>
    cases hnil
    exact ⟨vs, _, rfl, ht⟩

theorem HasTokens.of_tokenize {text : String} {ts : List Token} (h : tokenize text = .ok ts) :
    HasTokens text ts.dropLast := by
  obtain ⟨ws, e, rfl, -, -⟩ := Cursor.brings_pulls ((Pull.tokens_eq_ok_iff _ _).mp h)
  rw [List.dropLast_concat]
  exact ⟨e, h⟩

theorem HasTokens.exists_sentinel {text : String} {ws : List Token} (h : HasTokens text ws) :
    ∃ e, tokenize text = .ok (ws ++ [e]) ∧ e.kind = .endOfInput := by
  obtain ⟨e, he⟩ := h
  obtain ⟨us, e', hsplit, -, hkind⟩ := Cursor.brings_pulls ((Pull.tokens_eq_ok_iff _ _).mp he)
  obtain ⟨-, ⟨⟩⟩ := List.append_inj' hsplit rfl
  exact ⟨e, he, hkind⟩

theorem HasTokens.unique {text : String} {ws ws' : List Token} (h : HasTokens text ws)
    (h' : HasTokens text ws') : ws = ws' := by
  obtain ⟨e, he⟩ := h
  obtain ⟨e', he'⟩ := h'
  rw [he] at he'
  injection he' with heq
  exact (List.append_inj' heq rfl).1

/-- A text without tokens is trivia. -/
theorem HasTokens.trivia {text : String} (h : HasTokens text []) : Trivia text.toList [] := by
  obtain ⟨e, he⟩ := h
  exact trivia_of_tokenize he

/-! ## One line below the other -/

theorem exists_intercalate_cons (line : String) (lines : List String) :
    ∃ more, ("\n".intercalate (line :: lines)).toList = line.toList ++ more := by
  by_cases hnil : lines = []
  · subst hnil
    exact ⟨[], by simp⟩
  · rw [String.intercalate_cons_of_ne_nil hnil, toList_concat]
    exact ⟨_, rfl⟩

theorem lineAt_of_not_mem {cs : List Char} (h : '\n' ∉ cs) : lineAt cs = 1 := by
  rw [lineAt, List.count_eq_zero.mpr h]
  rfl

/-- Lines in a row end on the line that is their number. -/
theorem lineAt_intercalate {lines : List String} (hne : lines ≠ [])
    (hfeed : ∀ line ∈ lines, '\n' ∉ line.toList) :
    lineAt ("\n".intercalate lines).toList = lines.length := by
  induction lines with
  | nil => exact absurd rfl hne
  | cons line lines ih =>
    obtain ⟨hline, hlines⟩ := List.forall_mem_cons.mp hfeed
    by_cases hnil : lines = []
    · rw [hnil, String.intercalate_singleton, lineAt_of_not_mem hline]
      rfl
    · have hbelow := ih hnil hlines
      rw [String.intercalate_cons_of_ne_nil hnil, toList_concat, lineAt, List.count_append,
        List.count_cons_self, List.count_eq_zero.mpr hline]
      rw [lineAt] at hbelow
      rw [List.length_cons]
      omega

/-- The tokens of a text and of another one below it. -/
theorem HasTokens.below {s t : String} {us ws : List Token} (hs : HasTokens s us)
    (ht : HasTokens t ws) :
    HasTokens (s ++ "\n" ++ t) (us ++ ws.map (Token.shift (lineAt s.toList))) := by
  obtain ⟨e, he⟩ := hs
  obtain ⟨e', he'⟩ := ht
  have hboth := (tokenize_concat he t).1 _ he'
  rw [List.dropLast_concat, List.map_append, ← List.append_assoc] at hboth
  exact ⟨_, hboth⟩

/-- Where a text with another one below it becomes tokens, these are the tokens of the two. -/
theorem HasTokens.exists_below {s t : String} {ws : List Token} (h : HasTokens (s ++ "\n" ++ t) ws) :
    ∃ us vs, HasTokens s us ∧ HasTokens t vs ∧ ws = us ++ vs.map (Token.shift (lineAt s.toList)) := by
  obtain ⟨e, he⟩ := h
  cases hs : tokenize s with
  | error failure =>
    rw [tokenize_above hs] at he
    cases he
  | ok us =>
    cases ht : tokenize t with
    | error failure =>
      rw [(tokenize_concat hs t).2 failure ht] at he
      cases he
    | ok vs =>
      have hboth := (HasTokens.of_tokenize hs).below (HasTokens.of_tokenize ht)
      exact ⟨_, _, .of_tokenize hs, .of_tokenize ht, HasTokens.unique ⟨e, he⟩ hboth⟩

/-- The tokens of lines in a row are those of each line. -/
theorem HasTokens.intercalate {lines : List String} {wss : List (List Token)}
    (h : List.Forall₂ HasTokens lines wss) :
    ∃ us, HasTokens ("\n".intercalate lines) us ∧ List.Forall₂ Token.Alike wss.flatten us := by
  induction h with
  | nil =>
    obtain ⟨e, he, -⟩ := tokenize_of_trivia (t := "") .nil
    exact ⟨[], ⟨e, he⟩, .nil⟩
  | @cons line ws lines wss hline hlines ih =>
    by_cases hnil : lines = []
    · subst hnil
      cases hlines
      rw [String.intercalate_singleton]
      refine ⟨ws, hline, ?_⟩
      rw [List.flatten_cons, List.flatten_nil, List.append_nil]
      exact List.forall₂_same.mpr fun t _ => .refl t
    · obtain ⟨us, hus, halike⟩ := ih
      rw [String.intercalate_cons_of_ne_nil hnil]
      refine ⟨_, hline.below hus, ?_⟩
      refine List.rel_append (List.forall₂_same.mpr fun t _ => .refl t) ?_
      rw [List.forall₂_map_right_iff]
      exact halike.imp fun _ _ h => h.shift _

/-- Where a text becomes tokens, each of its lines does. -/
theorem HasTokens.exists_lines {lines : List String} {us : List Token}
    (h : HasTokens ("\n".intercalate lines) us) : ∃ wss, List.Forall₂ HasTokens lines wss := by
  induction lines generalizing us with
  | nil => exact ⟨[], .nil⟩
  | cons line lines ih =>
    by_cases hnil : lines = []
    · subst hnil
      rw [String.intercalate_singleton] at h
      exact ⟨[us], .cons h .nil⟩
    · rw [String.intercalate_cons_of_ne_nil hnil] at h
      obtain ⟨ws, vs, hline, hlines, -⟩ := h.exists_below
      obtain ⟨wss, hwss⟩ := ih hlines
      exact ⟨ws :: wss, .cons hline hwss⟩

/-! ## Without the blanks at the ends -/

/-- A text with tokens has them also without the blanks at its ends. -/
theorem HasTokens.stripped {text : String} {ws : List Token} (h : HasTokens text ws) (hws : ws ≠ []) :
    ∃ us, HasTokens (String.ofList (strip text.toList)) us ∧ List.Forall₂ Token.Alike ws us := by
  obtain ⟨e, he⟩ := h
  obtain ⟨fs, last, hfs, hshort, hlast, hts⟩ := factors_of_tokenize he
  cases fs with
  | nil => exact absurd (hts.eq_nil_iff.mpr rfl) hws
  | cons f fs =>
    have hstripped : Factors (String.ofList (strip text.toList)).toList
        (⟨f.gap.dropWhile isBlank, f.lexeme⟩ :: fs) (stripRight last) := by
      rw [String.toList_ofList]
      exact hfs.dropBlanks.stripRight
    have hlexemes : (f :: fs).map Factor.lexeme =
        (⟨f.gap.dropWhile isBlank, f.lexeme⟩ :: fs).map Factor.lexeme := rfl
    obtain ⟨us, e', hts', hus, -⟩ := hts.respaced hlexemes [] (stripRight last)
    obtain ⟨z, hz⟩ := stripRight_prefix last
    rw [hz] at hlast
    exact ⟨us, ⟨e', hstripped.tokenize_ok hlast.of_append (hshort.of_lexemes hlexemes) hts'⟩, hus⟩

/-! ## The ends of a line -/

/-- The lexeme of the last token stands before the last trivia, and on one line no comment stands
before it. -/
theorem Factors.last_lexeme {text last : List Char} {fs : List Factor} (h : Factors text fs last)
    {before final : List Char} {ws : List Token} {t e : Token}
    (hts : TokensOf before fs final (ws ++ [t] ++ [e])) :
    ∃ x l, text = x ++ (l ++ last) ∧ IsLexeme l ∧ Denotes l t.kind t.value ∧
      ('\n' ∉ text → '#' ∉ x) := by
  induction h generalizing before ws with
  | nil => exact absurd (hts.eq_nil_iff.mpr rfl) (by simp)
  | @cons gap l rest last fs hgap hl hsep hfs ih =>
    have hgap_sharp : '\n' ∉ gap ++ (l ++ rest) → '#' ∉ gap :=
      hgap.no_comment (List.append_ne_nil_of_left_ne_nil hl.ne_nil rest)
    generalize htokens : ws ++ [t] ++ [e] = ts at hts
    cases hts with
    | @cons _ _ _ _ _ kind value ts hdenotes hts =>
      cases ws with
      | nil =>
        -- The only token is of the first lexeme, so that nothing but trivia follows it.
        injection htokens with htoken hrest
        subst htoken hrest
        obtain rfl := hts.eq_nil_iff.mp rfl
        cases hfs
        exact ⟨gap, l, rfl, hl, hdenotes, hgap_sharp⟩
      | cons w ws =>
        injection htokens with _ hrest
        subst hrest
        obtain ⟨x, l', rfl, hl', hdenotes', hsharp⟩ := ih hts
        refine ⟨gap ++ l ++ x, l', by simp, hl', hdenotes', fun hfeed => ?_⟩
        simp only [List.mem_append, not_or] at hfeed hgap_sharp hsharp ⊢
        refine ⟨⟨hgap_sharp hfeed, fun hmem => (hl.char hmem).2 rfl⟩, ?_⟩
        exact hsharp hfeed.2.2

/-- A text without tokens begins, behind its blanks, with a comment, if there is anything left. -/
theorem HasTokens.comment_in_front {text : String} (h : HasTokens text []) :
    ∀ c, (strip text.toList).head? = some c → c = '#' := by
  rw [head?_strip]
  exact h.trivia.dropBlanks.2

/-- A line with tokens begins, behind its blanks, with a character that opens no comment. -/
theorem HasTokens.lexeme_in_front {line : String} {ws : List Token} (h : HasTokens line ws)
    (hws : ws ≠ []) (hfeed : '\n' ∉ line.toList) :
    ∃ c, (strip line.toList).head? = some c ∧ c ≠ '#' := by
  obtain ⟨e, he⟩ := h
  obtain ⟨fs, last, hfs, -, -, hts⟩ := factors_of_tokenize he
  generalize line.toList = text at hfs hfeed
  rw [head?_strip]
  cases hfs with
  | nil => exact absurd (hts.eq_nil_iff.mpr rfl) hws
  | @cons gap l rest _ fs hgap hl hsep _ =>
    have hsharp := hgap.no_comment (List.append_ne_nil_of_left_ne_nil hl.ne_nil rest) hfeed
    have hblank : gap.dropWhile isBlank = [] := by
      cases hdrop : gap.dropWhile isBlank with
      | nil => rfl
      | cons c cs =>
        have hc : c = '#' := hgap.dropBlanks.2 c (by rw [hdrop]; rfl)
        have hmem : c ∈ gap := (List.dropWhile_suffix isBlank).subset (hdrop ▸ List.mem_cons_self)
        exact absurd (hc ▸ hmem) hsharp
    obtain ⟨c, l, rfl⟩ := List.exists_cons_of_ne_nil hl.ne_nil
    obtain ⟨hc, hne⟩ := hl.char List.mem_cons_self
    refine ⟨c, ?_, hne⟩
    rw [List.dropWhile_append, hblank, List.cons_append,
      List.dropWhile_cons_of_neg (by rw [hc]; decide)]
    rfl

/-- Only the lexeme of a semicolon ends with one. -/
theorem denotes_semicolon_iff {l : List Char} {kind : TokenKind} {value : Value}
    (h : Denotes l kind value) : l.getLast? = some ';' ↔ kind = .semicolon := by
  have hnot : ∀ {l : List Char}, (∀ c ∈ l, isWordPart c = true) → l.getLast? ≠ some ';' := by
    intro l hl hlast
    exact absurd (hl _ (List.mem_of_getLast? hlast)) (by decide)
  cases h with
  | true => decide
  | false => decide
  | keyword h _ _ =>
    have hall : ∀ e ∈ TokenKind.keywords, (e.1.getLast? = some ';' ↔ e.2 = .semicolon) := by decide
    exact hall _ h
  | name h _ => exact iff_of_false (hnot h.parts) (by decide)
  | integer h => exact iff_of_false (hnot h.parts) (by decide)
  | real h _ =>
    obtain ⟨a, b, -, hb, rfl⟩ := h
    refine iff_of_false ?_ (by decide)
    rw [List.getLast?_append_of_ne_nil _ (by simp), List.getLast?_cons_of_ne_nil hb.1]
    exact hnot hb.parts
  | sign h =>
    have hall : ∀ e ∈ TokenKind.signs, (e.1.getLast? = some ';' ↔ e.2 = .semicolon) := by decide
    exact hall _ h

/-- A semicolon among the tokens is one in the text. -/
theorem HasTokens.mem_semicolon {text : String} {ws : List Token} {t : Token}
    (h : HasTokens text (ws ++ [t])) (ht : t.kind = .semicolon) : ';' ∈ text.toList := by
  obtain ⟨e, he⟩ := h
  obtain ⟨fs, last, hfs, -, -, hts⟩ := factors_of_tokenize he
  obtain ⟨x, l, htext, -, hdenotes, -⟩ := hfs.last_lexeme hts
  have hmem := List.mem_of_getLast? ((denotes_semicolon_iff hdenotes).mpr ht)
  rw [htext]
  exact List.mem_append_right _ (List.mem_append_left _ hmem)

end MflFrontend
