import MflFrontend.Proofs.Grammar.Positions
import MflFrontend.Proofs.Lexing.Lines
import MflFrontend.Session.Chunk

/-!
# Lines that close a chunk

Whether a line closes a chunk is judged by its characters alone: the text before its first `#`, of
which the blanks are stripped off. On a line that becomes tokens this is the end of the last lexeme.

A token stands on one line, so the tokens of several lines end with those of the last one, if it has
any. Whether the lines are a complete chunk can therefore be read off their tokens.
-/

namespace MflFrontend

/-! ## One line -/

/-- A line closes a chunk if and only if its last token is a semicolon. -/
theorem closesChunk_iff {line : String} {ws : List Token} (h : HasTokens line ws)
    (hfeed : '\n' ∉ line.toList) :
    closesChunk line.toList = true ↔ ∃ t, ws.getLast? = some t ∧ t.kind = .semicolon := by
  obtain ⟨e, he⟩ := h
  obtain ⟨fs, last, hfs, -, hlast, hts⟩ := factors_of_tokenize he
  unfold closesChunk
  rw [beq_iff_eq]
  rcases List.eq_nil_or_concat ws with rfl | ⟨us, t, rfl⟩
  · have htrivia := trivia_of_tokenize he
    rw [stripRight_blank htrivia.blank_before_comment]
    constructor
    · nofun
    · rintro ⟨t, ht, -⟩
      cases ht
  · rw [List.concat_eq_append] at hts ⊢
    obtain ⟨x, l, htext, hl, hdenotes, hsharp⟩ := hfs.last_lexeme hts
    obtain ⟨l', c, rfl⟩ := (List.eq_nil_or_concat l).resolve_left hl.ne_nil
    -- no comment stands before the last token, so cutting the comment off leaves its lexeme at the end
    have hcode : ∀ a ∈ x ++ l'.concat c, (a != '#') = true := by
      intro a ha
      rw [bne_iff_ne]
      rcases List.mem_append.mp ha with ha | ha
      · rintro rfl
        exact hsharp hfeed ha
      · exact (hl.char ha).2
    have htake : line.toList.takeWhile (· != '#') =
        (x ++ l') ++ c :: last.takeWhile (· != '#') := by
      rw [htext, ← List.append_assoc, List.takeWhile_append_of_pos hcode]
      simp
    have hc : isBlank c = false := (hl.char (by simp)).1
    rw [htake, stripRight_behind hc, stripRight_blank hlast.blank_before_comment,
      List.getLast?_concat, List.getLast?_concat]
    have hlexeme := denotes_semicolon_iff hdenotes
    rw [List.concat_eq_append, List.getLast?_concat] at hlexeme
    rw [hlexeme]
    simp

/-! ## The last line -/

/-- The tokens of a text stand on its lines. -/
theorem HasTokens.line_bounds {text : String} {ws : List Token} (h : HasTokens text ws) :
    ∀ t ∈ ws, 1 ≤ t.line ∧ t.line ≤ lineAt text.toList := by
  obtain ⟨e, he⟩ := h
  intro t ht
  exact (tokenize_places he).2 t (List.mem_append_left [e] ht)

theorem HasTokens.line_eq_one {line : String} {ws : List Token} (h : HasTokens line ws)
    (hfeed : '\n' ∉ line.toList) : ∀ t ∈ ws, t.line = 1 := by
  intro t ht
  obtain ⟨hge, hle⟩ := h.line_bounds t ht
  rw [lineAt_of_not_mem hfeed] at hle
  exact Int.le_antisymm hle hge

/-- The tokens of lines in a row are some that stand further up, and then those that the last line
has, which stand on it. -/
theorem HasTokens.exists_last_line {front : List String} {line : String} {ws : List Token}
    (h : HasTokens ("\n".intercalate (front ++ [line])) ws)
    (hfeed : ∀ a ∈ front ++ [line], '\n' ∉ a.toList) :
    ∃ us vs w, ws = us ++ vs ∧ HasTokens line w ∧ List.Forall₂ Token.Alike w vs ∧
      (∀ t ∈ us, t.line ≤ front.length) ∧ ∀ t ∈ vs, t.line = front.length + 1 := by
  obtain ⟨hfront, hline⟩ := List.forall_mem_append.mp hfeed
  have hone := hline line (List.mem_singleton_self line)
  -- the last line is the whole text, or it stands below the text of those in front
  by_cases hnil : front = []
  · subst hnil
    rw [List.nil_append, String.intercalate_singleton] at h
    exact ⟨[], ws, ws, rfl, h, List.forall₂_same.mpr fun t _ => .refl t, nofun,
      h.line_eq_one hone⟩
  · rw [String.intercalate_append_of_ne_nil hnil (List.cons_ne_nil line []),
      String.intercalate_singleton] at h
    obtain ⟨us, w, hus, hw, rfl⟩ := h.exists_below
    have hlast := lineAt_intercalate hnil hfront
    refine ⟨us, _, w, rfl, hw, ?_, fun t ht => ?_, fun t ht => ?_⟩
    · exact List.forall₂_map_right_iff.mpr
        (List.forall₂_same.mpr fun t _ => (Token.Alike.refl t).shift _)
    · exact hlast ▸ (hus.line_bounds t ht).2
    · obtain ⟨u, hu, rfl⟩ := List.mem_map.mp ht
      rw [Token.shift_line, hw.line_eq_one hone u hu, hlast]
      exact Int.add_comm _ _

/-! ## Complete chunks -/

/-- The last line decides whether the lines are a complete chunk. -/
theorem isComplete_concat (front : List String) (line : String) :
    isComplete (front ++ [line]) = .ok (closesChunk line.toList) := by
  rw [isComplete, List.getLast?_concat]

/-- Lines that become tokens are a complete chunk if and only if a token stands on the last of them
and the last token of all is a semicolon. -/
theorem isComplete_iff {lines : List String} {ts : List Token}
    (hlines : lines ≠ []) (hfeed : ∀ line ∈ lines, '\n' ∉ line.toList)
    (hts : tokenize ("\n".intercalate lines) = .ok ts) :
    ∃ (ws : List Token) (e : Token) (complete : Bool), ts = ws ++ [e] ∧
      e.kind = .endOfInput ∧ (∀ t ∈ ws, t.kind ≠ .endOfInput) ∧
      isComplete lines = .ok complete ∧
      (complete = true ↔ (∃ t ∈ ws, t.line = lines.length) ∧
        ∃ t, ws.getLast? = some t ∧ t.kind = .semicolon) := by
  obtain ⟨front, line, rfl⟩ := (List.eq_nil_or_concat lines).resolve_left hlines
  rw [List.concat_eq_append] at hfeed hts ⊢
  obtain ⟨ws, e, rfl, hws, he⟩ := Cursor.brings_pulls ((Pull.tokens_eq_ok_iff _ _).mp hts)
  obtain ⟨us, vs, w, rfl, hw, halike, habove, hon⟩ := HasTokens.exists_last_line ⟨e, hts⟩ hfeed
  have hlength : ((front ++ [line]).length : Int) = front.length + 1 := by simp
  refine ⟨us ++ vs, e, closesChunk line.toList, rfl, he, hws, isComplete_concat front line, ?_⟩
  rw [closesChunk_iff hw (hfeed line (by simp)), hlength]
  rcases List.eq_nil_or_concat w with rfl | ⟨w, t, rfl⟩
  · -- the last line has no token, and those above it are on other lines
    cases halike
    constructor
    · rintro ⟨t, ht, -⟩
      cases ht
    · rintro ⟨⟨t, ht, hline⟩, -⟩
      rw [List.append_nil] at ht
      have hle := habove t ht
      omega
  · rw [List.concat_eq_append] at halike ⊢
    obtain ⟨vs, u, rfl, hu⟩ := alike_concat halike
    have hlast : u.line = front.length + 1 := hon u (by simp)
    rw [← List.append_assoc, List.getLast?_concat, List.getLast?_concat]
    constructor
    · rintro ⟨_, ⟨⟩, hkind⟩
      exact ⟨⟨u, by simp, hlast⟩, u, rfl, hu.kind ▸ hkind⟩
    · rintro ⟨-, _, ⟨⟩, hkind⟩
      exact ⟨t, rfl, hu.kind.trans hkind⟩

/-- A sum over two lines, each with a comment, of which the first has a semicolon in it. -/
def summedLines : List String := ["x # ;", "+ 1;\r# y"]

/-- The tokens of the sum. -/
def summedTokens : List Token :=
  [⟨.ident, .text "x", 1, 1⟩, ⟨.plus, .text "+", 2, 1⟩, ⟨.intLit, .int 1, 2, 3⟩,
    ⟨.semicolon, .text ";", 2, 4⟩]

/-- The sum is complete, and no longer so once a comment stands below it. -/
theorem summedLines_complete :
    tokenize ("\n".intercalate summedLines) =
      .ok (summedTokens ++ [⟨.endOfInput, .none, 2, 9⟩]) ∧
    isComplete summedLines = .ok true ∧
    tokenize ("\n".intercalate (summedLines ++ ["# ;"])) =
      .ok (summedTokens ++ [⟨.endOfInput, .none, 3, 4⟩]) ∧
    isComplete (summedLines ++ ["# ;"]) = .ok false := by
  have hsum : tokenize ("\n".intercalate summedLines) =
      .ok (summedTokens ++ [⟨.endOfInput, .none, 2, 9⟩]) := by cbv
  have hbelow : tokenize ("\n".intercalate (summedLines ++ ["# ;"])) =
      .ok (summedTokens ++ [⟨.endOfInput, .none, 3, 4⟩]) := by cbv
  obtain ⟨ws, e, complete, hsplit, -, -, hcomplete, hiff⟩ :=
    isComplete_iff (by decide) (by decide) hsum
  obtain ⟨ws', e', complete', hsplit', -, -, hcomplete', hiff'⟩ :=
    isComplete_iff (by decide) (by decide) hbelow
  obtain ⟨rfl, -⟩ := List.append_inj' hsplit rfl
  obtain ⟨rfl, -⟩ := List.append_inj' hsplit' rfl
  refine ⟨hsum, ?_, hbelow, ?_⟩
  · rw [hcomplete, hiff.mpr ⟨by decide, _, rfl, rfl⟩]
  · have hopen : complete' = false :=
      Bool.eq_false_iff.mpr fun h => absurd (hiff'.mp h).1 (by decide)
    rw [hcomplete', hopen]

end MflFrontend
