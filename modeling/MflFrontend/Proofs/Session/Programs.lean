import MflFrontend.Proofs.Grammar.Statements
import MflFrontend.Proofs.Session.Chunk
import MflFrontend.Session.Basic

/-!
# Programs that are entered line by line

A session that is given the lines of a program cuts it into chunks where a line ends with a
semicolon. The open chunk always ends within a statement, so the tokens of a chunk that is closed are
statements of the program, as many as there are before that semicolon. Lines without tokens are
either taken up by the open chunk or passed over.

What could go wrong is kept out by two conditions. A blank line closes a chunk wherever it stands,
and a line that opens a chunk may be a command.
-/

namespace MflFrontend

/-- The words that a session takes as commands where they open a chunk. -/
def commandWords : List (List Char) := leavingWords ++ [jsonModeWord, verboseModeWord]

/-- The lines end within a statement: they have tokens, and the last is no semicolon. -/
def EndInStatement (lines : List String) : Prop :=
  ∃ ws t, HasTokens ("\n".intercalate lines) (ws ++ [t]) ∧ t.kind ≠ .semicolon

/-- What a session prints around a line that it goes on after. -/
structure Exchange where
  /-- Whether the line opens a chunk. -/
  opens : Bool
  /-- The inner lines of the tree that is printed once the line was read, if one is. -/
  answer : Option (List String)

/-- A tree as it is printed: its inner lines between the two of its root, each closed by a line
feed. -/
def writtenTree (inner : List String) : String :=
  String.join (("Prog(" :: (inner ++ [")"])).map (· ++ "\n"))

/-- The answer as it is printed: a tree, or nothing. -/
def writtenAnswer (answer : Option (List String)) : String := answer.elim "" writtenTree

/-- The prompt and what is printed behind it. -/
def Exchange.output (x : Exchange) : String :=
  (if x.opens then ">>> " else "... ") ++ writtenAnswer x.answer

theorem intercalate_closed {lines : List String} (hne : lines ≠ []) :
    "\n".intercalate lines ++ "\n" = String.join (lines.map (· ++ "\n")) := by
  induction lines with
  | nil => exact absurd rfl hne
  | cons line lines ih =>
    rw [List.map_cons, String.join_cons]
    by_cases hnil : lines = []
    · subst hnil
      rw [String.intercalate_singleton]
      simp
    · rw [String.intercalate_cons_of_ne_nil hnil, String.append_assoc, ih hnil]

/-- A tree is printed by its lines. -/
theorem SyntaxTree.HasInner.print {tree : SyntaxTree} {inner : List String}
    (h : tree.HasInner inner) : tree.print false = writtenTree inner := by
  have hprinted : tree.root.printed 0 =
      .ok ("\n".intercalate ("Prog(" :: (inner ++ [")"])) ++ "\n") := by
    unfold Node.printed
    rw [h.render]
    rfl
  rw [writtenTree, ← intercalate_closed (List.cons_ne_nil _ _)]
  unfold SyntaxTree.print
  rw [if_neg Bool.false_ne_true, hprinted]

/-! ## Words of a line -/

theorem toLower_eq_sharp {c : Char} (h : c.toLower = '#') : c = '#' := by
  unfold Char.toLower at h
  split at h
  · next hupper =>
    have hcode := congrArg (fun c : Char => c.val.toNat) h
    simp only [ge_iff_le, UInt32.le_iff_toNat_le] at hupper
    simp only [UInt32.toNat_add] at hcode
    simp at hcode hupper
    omega
  · exact h

theorem head?_commandWord {line : String} :
    (commandWord line).head? = some '#' ↔ (strip line.toList).head? = some '#' := by
  unfold commandWord
  rw [List.head?_map, Option.map_eq_some_iff]
  constructor
  · rintro ⟨c, hc, hsharp⟩
    rw [hc, toLower_eq_sharp hsharp]
  · exact fun h => ⟨'#', h, rfl⟩

namespace Session

/-- The session after the lines, if it goes on so far. -/
def afterLines (s : Session) : List String → Option Session
  | [] => some s
  | line :: lines =>
    match (s.enter line).next with
    | .session next => next.afterLines lines
    | .left => none
    | .failed _ => none

section Enter

variable {s : Session} {line : String}

/-- A line that does not leave the session closes the chunk or goes into it. -/
theorem enter_eq (hword : s.pending = [] → commandWord line ∉ leavingWords) :
    s.enter line =
      if s.closes line = true then closeChunk s.modes (s.pending ++ [line])
      else ⟨"", [], .session { s with pending := s.pending ++ [line] }⟩ := by
  have hstay : ¬ (s.pending.isEmpty && leavingWords.contains (commandWord line)) = true := by
    rw [Bool.and_eq_true, List.isEmpty_iff, List.contains_iff_mem]
    exact fun h => hword h.1 h.2
  unfold enter
  rw [if_neg hstay]

/-- Between two chunks, a line without tokens changes nothing. -/
theorem enter_idle (hs : s.pending = []) (hword : commandWord line ∉ leavingWords)
    (hfront : ∀ c, (strip line.toList).head? = some c → c = '#') :
    s.enter line = ⟨"", [], .session s⟩ := by
  obtain ⟨modes, pending⟩ := s
  subst hs
  have hsource : (strip line.toList).isEmpty = true ∨ (strip line.toList).head? = some '#' := by
    cases hstrip : strip line.toList with
    | nil => exact .inl rfl
    | cons c cs =>
      have hc : c = '#' := hfront c (by rw [hstrip]; rfl)
      exact .inr (by rw [hc]; rfl)
  have hcloses : closes ⟨modes, []⟩ line = true := by
    unfold closes standsAlone commandWord
    rcases hsource with h | h
    · simp [h]
    · simp [h]
  rw [enter_eq fun _ => hword, if_pos hcloses]
  unfold closeChunk
  rw [List.nil_append, String.intercalate_singleton, if_pos (by simpa using hsource)]
  rfl

/-- A line that neither closes the chunk nor is blank goes into it. -/
theorem enter_extends (hword : s.pending = [] → commandWord line ∉ commandWords)
    (hopen : closesChunk line.toList = false) (hblank : strip line.toList ≠ [])
    (hfront : s.pending = [] → (strip line.toList).head? ≠ some '#') :
    s.enter line = ⟨"", [], .session { s with pending := s.pending ++ [line] }⟩ := by
  have hcloses : ¬ s.closes line = true := by
    have hword' : s.pending = [] → commandWord line ≠ jsonModeWord ∧ commandWord line ≠ verboseModeWord ∧
        (commandWord line).head? ≠ some '#' := by
      intro hs
      have hmem := hword hs
      simp only [commandWords, List.mem_append, List.mem_pair, not_or] at hmem
      exact ⟨hmem.2.1, hmem.2.2, fun hsharp => hfront hs (head?_commandWord.mp hsharp)⟩
    have hne : commandWord line ≠ [] := mt List.map_eq_nil_iff.mp hblank
    unfold closes standsAlone
    rw [hopen]
    simpa [hne, and_assoc] using hword'
  rw [enter_eq fun hs hmem => hword hs (List.mem_append_left _ hmem), if_neg hcloses]

/-- A line that closes a chunk of a program is answered with the tree of the chunk. -/
theorem enter_closes (hword : s.pending = [] → commandWord line ∉ leavingWords)
    (hclose : closesChunk line.toList = true) {source : List Char}
    (hsource : strip ("\n".intercalate (s.pending ++ [line])).toList = source)
    (hfront : ∃ c, source.head? = some c ∧ c ≠ '#') (hsemicolon : ';' ∈ source)
    {tree : SyntaxTree} (htree : (parseText s.modes.room (String.ofList source)).outcome = .ok tree) :
    ∃ log, s.enter line = ⟨tree.print s.modes.json, log, .session { modes := s.modes }⟩ := by
  have hcloses : s.closes line = true := by
    unfold closes
    rw [hclose, Bool.or_true, Bool.true_or]
  have hkept : ¬ (source.isEmpty || source.head? == some '#') = true := by
    obtain ⟨c, hc, hne⟩ := hfront
    cases source with
    | nil => cases hc
    | cons a source =>
      injection hc with hc
      simpa [hc] using hne
  have hmem : ';' ∈ source.map Char.toLower := List.mem_map.mpr ⟨';', hsemicolon, rfl⟩
  -- a chunk with a semicolon is none of the words that switch a mode
  have hmode : ∀ word, ';' ∉ word → source.map Char.toLower ≠ word :=
    fun word hword heq => hword (heq ▸ hmem)
  refine ⟨(parseText s.modes.room (String.ofList source)).log, ?_⟩
  rw [enter_eq hword, if_pos hcloses]
  unfold closeChunk
  simp only [hsource]
  rw [if_neg hkept, if_neg (hmode _ (by decide)), if_neg (hmode _ (by decide))]
  unfold answerChunk
  simp only [htree]
  rfl

end Enter

/-! ## The open chunk -/

/-- The tokens of the open chunk are `p`; if there is a chunk, it begins on its first line with a
token and ends within a statement. -/
structure Holds (s : Session) (p : List Token) : Prop where
  /-- The tokens are those of the lines. -/
  tokens : ∃ pss, List.Forall₂ HasTokens s.pending pss ∧ p = pss.flatten
  /-- The first line begins with a character that opens no comment. -/
  front : ∀ line, s.pending.head? = some line →
    ∃ c, (strip line.toList).head? = some c ∧ c ≠ '#'
  /-- The last token closes no statement. -/
  inside : s.pending ≠ [] → ∃ t, p.getLast? = some t ∧ t.kind ≠ .semicolon

/-- Where nothing is open there are no tokens. -/
theorem Holds.eq_nil {s : Session} {p : List Token} (h : s.Holds p) (hs : s.pending = []) :
    p = [] := by
  obtain ⟨pss, hpss, rfl⟩ := h.tokens
  rw [hs] at hpss
  cases hpss
  rfl

theorem holds_nil {s : Session} (hs : s.pending = []) : s.Holds [] where
  tokens := ⟨[], hs ▸ .nil, rfl⟩
  front line hline := by
    rw [hs] at hline
    cases hline
  inside hne := absurd hs hne

/-- The chunk still begins with a token once a line was added. -/
theorem Holds.front_append {s : Session} {p : List Token} {line : String} (h : s.Holds p)
    (hline : s.pending = [] → ∃ c, (strip line.toList).head? = some c ∧ c ≠ '#') :
    ∀ first, (s.pending ++ [line]).head? = some first →
      ∃ c, (strip first.toList).head? = some c ∧ c ≠ '#' := by
  intro first hfirst
  rw [List.head?_append] at hfirst
  cases hs : s.pending.head? with
  | some a =>
    rw [hs] at hfirst
    exact h.front first (hs.trans hfirst)
  | none =>
    rw [hs] at hfirst
    cases hfirst
    exact hline (List.head?_eq_none_iff.mp hs)

/-- So does the text of the chunk. -/
theorem Holds.source_front {s : Session} {p : List Token} {line : String} (h : s.Holds p)
    (hline : s.pending = [] → ∃ c, (strip line.toList).head? = some c ∧ c ≠ '#') :
    ∃ c, (strip ("\n".intercalate (s.pending ++ [line])).toList).head? = some c ∧ c ≠ '#' := by
  have hfront := h.front_append hline
  obtain ⟨first, lines, hsplit⟩ := List.exists_cons_of_ne_nil
    (List.append_ne_nil_of_right_ne_nil s.pending (List.cons_ne_nil line []))
  rw [hsplit] at hfront ⊢
  obtain ⟨c, hc, hne⟩ := hfront first rfl
  obtain ⟨more, hmore⟩ := exists_intercalate_cons first lines
  rw [hmore]
  exact ⟨c, head?_strip_append hc more, hne⟩

section Step

variable {s : Session} {p : List Token} {line : String} {w : List Token}
  (h : s.Holds p) (hline : HasTokens line w) (hfeed : '\n' ∉ line.toList)
  (hword : s.pending = [] → commandWord line ∉ commandWords)

include h hline hfeed hword

/-- A line that does not end with a semicolon is taken up by the open chunk or passed over. -/
theorem Holds.enter_open (hblank : strip line.toList = [] → s.pending = [])
    (hopen : ∀ t, w.getLast? = some t → t.kind ≠ .semicolon) :
    ∃ s', s.enter line = ⟨"", [], .session s'⟩ ∧ s'.modes = s.modes ∧ s'.Holds (p ++ w) := by
  -- a line without tokens is passed over where no chunk is open, and any other line is taken up
  by_cases hidle : s.pending = [] ∧ w = []
  · obtain ⟨hs, rfl⟩ := hidle
    have hstay : commandWord line ∉ leavingWords :=
      fun hmem => hword hs (List.mem_append_left _ hmem)
    refine ⟨s, enter_idle hs hstay hline.comment_in_front, rfl, ?_⟩
    rw [h.eq_nil hs]
    exact holds_nil hs
  · have hclose : closesChunk line.toList = false := by
      rw [← Bool.not_eq_true, closesChunk_iff hline hfeed]
      rintro ⟨t, ht, hkind⟩
      exact hopen t ht hkind
    have hfront : s.pending = [] → ∃ c, (strip line.toList).head? = some c ∧ c ≠ '#' :=
      fun hs => hline.lexeme_in_front (fun hw => hidle ⟨hs, hw⟩) hfeed
    have hkept : strip line.toList ≠ [] := by
      intro hnil
      obtain ⟨c, hc, -⟩ := hfront (hblank hnil)
      rw [hnil] at hc
      cases hc
    have hsharp : s.pending = [] → (strip line.toList).head? ≠ some '#' := by
      intro hs hsharp
      obtain ⟨c, hc, hne⟩ := hfront hs
      rw [hc] at hsharp
      exact hne (Option.some.inj hsharp)
    refine ⟨_, enter_extends hword hclose hkept hsharp, rfl, ?_, h.front_append hfront, ?_⟩
    · obtain ⟨pss, hpss, rfl⟩ := h.tokens
      exact ⟨pss ++ [w], List.rel_append hpss (.cons hline .nil), by simp⟩
    · intro _
      rw [List.getLast?_append]
      cases hw : w.getLast? with
      | some t => exact ⟨t, rfl, hopen t hw⟩
      | none =>
        exact h.inside fun hs => hidle ⟨hs, List.getLast?_eq_none_iff.mp hw⟩

/-- A line that ends with a semicolon closes the chunk, and the answer is the tree of its
statements; the others are left. -/
theorem Holds.enter_closing (hroom : guaranteedRoom ≤ s.modes.room)
    (hclose : ∃ t, w.getLast? = some t ∧ t.kind = .semicolon)
    {rest : List Token} {ns : List Node} (hall : DerivesAll (p ++ w ++ rest) ns)
    (hnesting : nesting (p ++ w ++ rest) ≤ guaranteedNesting) :
    ∃ (tree : SyntaxTree) (inner : List String) (log : List LogRecord) (ns' : List Node),
      s.enter line = ⟨tree.print s.modes.json, log, .session { modes := s.modes }⟩ ∧
      tree.HasInner inner ∧ DerivesAll rest ns' ∧ nesting rest ≤ guaranteedNesting ∧
      Node.statementLines ns = Node.joinLines (.ok inner) (Node.statementLines ns') := by
  have hcloses := (closesChunk_iff hline hfeed).mpr hclose
  obtain ⟨t, ht, hkind⟩ := hclose
  obtain ⟨w, rfl⟩ := List.getLast?_eq_some_iff.mp ht
  -- The statements of the chunk, and those behind it.
  obtain ⟨ns₁, ns₂, rfl, hchunk, hrest⟩ := hall.split fun a ha => by
    rw [← List.append_assoc, List.getLast?_concat] at ha
    exact Option.some.inj ha ▸ hkind
  rw [hchunk.nesting_append] at hnesting
  -- The text that is parsed.
  obtain ⟨pss, hpss, rfl⟩ := h.tokens
  have hlines : List.Forall₂ HasTokens (s.pending ++ [line]) (pss ++ [w ++ [t]]) :=
    List.rel_append hpss (.cons hline .nil)
  obtain ⟨us, hus, hjoined⟩ := HasTokens.intercalate hlines
  rw [List.flatten_append, List.flatten_singleton] at hjoined
  have hne : us ≠ [] := by
    rintro rfl
    exact absurd (List.forall₂_nil_right_iff.mp hjoined) (by simp)
  obtain ⟨vs, hvs, hstripped⟩ := hus.stripped hne
  have halike := alike_trans hjoined hstripped
  obtain ⟨tree, inner, htree, hinner, hlaid⟩ :=
    parseText_of_statements hroom hvs halike hchunk (by simp) (by omega)
  have hsemicolon : ';' ∈ strip ("\n".intercalate (s.pending ++ [line])).toList := by
    rw [← List.append_assoc] at halike
    obtain ⟨vs, v, rfl, hv⟩ := alike_concat halike
    simpa using hvs.mem_semicolon (hv.kind ▸ hkind)
  have hfront := h.source_front fun _ => hline.lexeme_in_front (by simp) hfeed
  obtain ⟨log, henter⟩ := enter_closes
    (fun hs hmem => hword hs (List.mem_append_left _ hmem)) hcloses rfl hfront hsemicolon htree
  refine ⟨tree, inner, log, ns₂, henter, hinner, hrest, by omega, ?_⟩
  rw [Node.statementLines_append, hlaid]

/-- A line of a program leaves the session with an open chunk or none, and what is printed are the
statements that are gone. -/
theorem Holds.enter_line (hroom : guaranteedRoom ≤ s.modes.room) (hjson : s.modes.json = false)
    (hblank : strip line.toList = [] → s.pending = []) {rest : List Token} {ns : List Node}
    (hall : DerivesAll (p ++ w ++ rest) ns) (hnesting : nesting (p ++ w ++ rest) ≤ guaranteedNesting) :
    ∃ answer log s' q p' trees ns', s.enter line = ⟨writtenAnswer answer, log, .session s'⟩ ∧
      s'.modes = s.modes ∧ s'.Holds p' ∧ p ++ w = q ++ p' ∧
      List.Forall₂ SyntaxTree.HasInner trees answer.toList ∧
      DerivesAll (p' ++ rest) ns' ∧ nesting (p' ++ rest) ≤ guaranteedNesting ∧
      Node.statementLines ns = Node.joinLines (.ok answer.toList.flatten) (Node.statementLines ns') := by
  by_cases hclose : ∃ t, w.getLast? = some t ∧ t.kind = .semicolon
  · obtain ⟨tree, inner, log, ns', henter, hinner, hrest, hnesting', hlaid⟩ :=
      h.enter_closing hline hfeed hword hroom hclose hall hnesting
    rw [hjson, hinner.print] at henter
    refine ⟨some inner, log, _, p ++ w, [], [tree], ns', henter, rfl, holds_nil rfl, by simp,
      .cons hinner .nil, hrest, hnesting', ?_⟩
    rw [Option.toList_some, List.flatten_singleton]
    exact hlaid
  · have hopen : ∀ t, w.getLast? = some t → t.kind ≠ .semicolon :=
      fun t ht hkind => hclose ⟨t, ht, hkind⟩
    obtain ⟨s', henter, hmodes, hholds⟩ := h.enter_open hline hfeed hword hblank hopen
    refine ⟨none, [], s', [], p ++ w, [], ns, henter, hmodes, hholds, rfl, .nil, hall, hnesting, ?_⟩
    cases Node.statementLines ns <;> rfl

end Step

/-! ## The lines to come -/

/-- No blank line among these stands within a statement, if the tokens `p` stand before them. -/
def BlanksOutside (p : List Token) (lines : List String) : Prop :=
  ∀ before line after bss, lines = before ++ line :: after → List.Forall₂ HasTokens before bss →
    strip line.toList = [] → ∀ t, (p ++ bss.flatten).getLast? = some t → t.kind = .semicolon

theorem blanksOutside_of_endInStatement {lines : List String}
    (h : ∀ before line after, lines = before ++ line :: after →
      strip line.toList = [] → ¬ EndInStatement before) : BlanksOutside [] lines := by
  intro before line after bss heq hbss hstrip t ht
  obtain ⟨vs, hvs, hjoined⟩ := HasTokens.intercalate hbss
  obtain ⟨ws, hsplit⟩ := List.getLast?_eq_some_iff.mp ht
  rw [List.nil_append] at hsplit
  rw [hsplit] at hjoined
  obtain ⟨us, u, rfl, hu⟩ := alike_concat hjoined
  by_contra hkind
  exact h before line after heq hstrip ⟨us, u, hvs, hu.kind ▸ hkind⟩

/-- A blank line comes where no chunk is open. -/
theorem BlanksOutside.idle {s : Session} {p : List Token} {line : String} {lines : List String}
    (h : BlanksOutside p (line :: lines)) (hs : s.Holds p) :
    strip line.toList = [] → s.pending = [] := by
  intro hstrip
  by_contra hne
  obtain ⟨t, ht, hkind⟩ := hs.inside hne
  exact hkind (h [] line lines [] rfl .nil hstrip t (by simpa using ht))

/-- Behind a line, the tokens of answered statements do not count: those that are open come last. -/
theorem BlanksOutside.tail {p p' q w : List Token} {line : String} {lines : List String}
    (h : BlanksOutside p (line :: lines)) (hline : HasTokens line w) (hsplit : p ++ w = q ++ p') :
    BlanksOutside p' lines := by
  intro before a after bss heq hbss hstrip t ht
  refine h (line :: before) a after (w :: bss) (by rw [heq]; rfl) (.cons hline hbss) hstrip t ?_
  rw [List.flatten_cons, ← List.append_assoc, hsplit, List.append_assoc, List.getLast?_append, ht]
  rfl

/-- None of the lines is a command where it opens a chunk. -/
def OpensNoCommand (s : Session) (lines : List String) : Prop :=
  ∀ before line after, lines = before ++ line :: after →
    ∀ s', s.afterLines before = some s' → s'.pending = [] → commandWord line ∉ commandWords

theorem afterLines_cons {s s' : Session} {line output : String} {log : List LogRecord}
    (henter : s.enter line = ⟨output, log, .session s'⟩) (lines : List String) :
    s.afterLines (line :: lines) = s'.afterLines lines := by
  rw [afterLines, henter]

theorem OpensNoCommand.tail {s s' : Session} {line output : String} {log : List LogRecord}
    {lines : List String} (h : s.OpensNoCommand (line :: lines))
    (henter : s.enter line = ⟨output, log, .session s'⟩) : s'.OpensNoCommand lines := by
  intro before a after heq
  rw [← afterLines_cons henter]
  exact h (line :: before) a after (by rw [heq]; rfl)

/-! ## Whole programs -/

/-- A session that goes on after a line prints around it and then what is printed for the others. -/
theorem run_line {s s' : Session} {line output : String} {log log' : List LogRecord}
    (henter : s.enter line = ⟨output, log, .session s'⟩) {events : List Event} {more : String}
    (hrun : s'.run events = ⟨.ok (), more, log', 0⟩) :
    s.run (.line line :: events) = ⟨.ok (), s.prompt ++ output ++ more, log ++ log', 0⟩ := by
  simp only [run, react, henter, hrun, Transcript.after]

/-- Once all statements were answered, no chunk is open. -/
theorem Holds.idle {s : Session} {p : List Token} {ns : List Node} (h : s.Holds p)
    (hall : DerivesAll p ns) : s = { modes := s.modes } ∧ ns = [] := by
  have hs : s.pending = [] := by
    by_contra hne
    obtain ⟨t, ht, hkind⟩ := h.inside hne
    exact hkind (hall.last t ht)
  have hns : ns = [] := by
    by_contra hne
    exact hall.ne_nil hne (h.eq_nil hs)
  obtain ⟨modes, pending⟩ := s
  exact ⟨congrArg (Session.mk modes) hs, hns⟩

/-- From any state that the lines of a program lead to, the other lines are answered with the
statements that are left, and the session ends as it began. -/
theorem Holds.run {s : Session} {p : List Token} (h : s.Holds p)
    (hroom : guaranteedRoom ≤ s.modes.room) (hjson : s.modes.json = false)
    {lines : List String} {wss : List (List Token)} (hlines : List.Forall₂ HasTokens lines wss)
    (hfeed : ∀ line ∈ lines, '\n' ∉ line.toList) {ns : List Node}
    (hall : DerivesAll (p ++ wss.flatten) ns)
    (hnesting : nesting (p ++ wss.flatten) ≤ guaranteedNesting)
    (hblank : BlanksOutside p lines) (hword : s.OpensNoCommand lines) :
    ∃ (exchanges : List Exchange) (trees : List SyntaxTree) (log : List LogRecord),
      exchanges.length = lines.length ∧
      s.afterLines lines = some { modes := s.modes } ∧
      s.run (lines.map .line) = ⟨.ok (), String.join (exchanges.map Exchange.output) ++
        (">>> " ++ breakOff.output), log, 0⟩ ∧
      List.Forall₂ SyntaxTree.HasInner trees (exchanges.filterMap Exchange.answer) ∧
      Node.statementLines ns = .ok (exchanges.filterMap Exchange.answer).flatten := by
  induction hlines generalizing s p ns with
  | nil =>
    rw [List.flatten_nil, List.append_nil] at hall
    -- the statements are all entered, so no chunk is open where the lines end
    obtain ⟨hs, rfl⟩ := h.idle hall
    rw [hs]
    refine ⟨[], [], [], rfl, rfl, rfl, .nil, ?_⟩
    unfold Node.statementLines
    rw [List.map_nil, Node.layoutTasks]
    rfl
  | @cons line w lines wss hline hlines ih =>
    rw [List.flatten_cons, ← List.append_assoc] at hall hnesting
    obtain ⟨hfeed₀, hfeed'⟩ := List.forall_mem_cons.mp hfeed
    -- the line answers the statements that it completes, and the lines behind it the others
    obtain ⟨answer, log, s', q, p', trees, ns', henter, hmodes, h', hsplit, htrees, hall', hnesting',
      hlaid⟩ := h.enter_line hline hfeed₀ (hword [] line lines rfl s rfl) hroom hjson (hblank.idle h)
        hall hnesting
    obtain ⟨exchanges, trees', log', hlength, hend, hrun, htrees', hlaid'⟩ :=
      ih h' (hmodes ▸ hroom) (hmodes ▸ hjson) hfeed' hall' hnesting' (hblank.tail hline hsplit)
        (hword.tail henter)
    have hanswers : (⟨s.pending.isEmpty, answer⟩ :: exchanges).filterMap Exchange.answer =
        answer.toList ++ exchanges.filterMap Exchange.answer := by
      cases answer <;> rfl
    refine ⟨⟨s.pending.isEmpty, answer⟩ :: exchanges, trees ++ trees', log ++ log', ?_, ?_, ?_, ?_, ?_⟩
    · rw [List.length_cons, List.length_cons, hlength]
    · rw [afterLines_cons henter, hend, hmodes]
    · have houtput : (⟨s.pending.isEmpty, answer⟩ : Exchange).output =
          s.prompt ++ writtenAnswer answer := rfl
      rw [List.map_cons, run_line henter hrun, List.map_cons, String.join_cons, houtput]
      simp only [String.append_assoc]
    · rw [hanswers]
      exact List.rel_append htrees htrees'
    · rw [hanswers, hlaid, hlaid', List.flatten_append]
      rfl

/-- The lines of a program, entered one by one in tree mode, are answered with trees whose inner
lines are, in order, those of the tree of the whole text; no chunk is left open. No blank line may
stand within a statement, and no line that opens a chunk may be a command. The parses of the session
have the room that one has at least, and the parentheses of the program nest no deeper than is sure
to go well. -/
theorem prints_program (verbose : Bool) {room : Nat} {lines : List String} {tree : SyntaxTree}
    (hroom : guaranteedRoom ≤ room) (hfeed : ∀ line ∈ lines, '\n' ∉ line.toList)
    (htree : (parseText room ("\n".intercalate lines)).outcome = .ok tree)
    (hnesting : nesting (goodTokens ("\n".intercalate lines)) ≤ guaranteedNesting)
    (hblank : ∀ before line after, lines = before ++ line :: after →
      strip line.toList = [] → ¬ EndInStatement before)
    (hword : ∀ before line after, lines = before ++ line :: after →
      ∀ s, ({ modes := { verbose, room } } : Session).afterLines before = some s → s.pending = [] →
        commandWord line ∉ commandWords) :
    ∃ (exchanges : List Exchange) (trees : List SyntaxTree) (log : List LogRecord),
      exchanges.length = lines.length ∧
      ({ modes := { verbose, room } } : Session).afterLines lines =
        some { modes := { verbose, room } } ∧
      start { verbose, room } (lines.map .line) =
        ⟨.ok (), sessionBanner ++ (String.join (exchanges.map Exchange.output) ++
          (">>> " ++ breakOff.output)), log, 0⟩ ∧
      List.Forall₂ SyntaxTree.HasInner trees (exchanges.filterMap Exchange.answer) ∧
      tree.HasInner (exchanges.filterMap Exchange.answer).flatten := by
  obtain ⟨_, htokens, hparse⟩ := tokenize_of_parseText htree
  obtain ⟨ts, e, rfl, hends, he⟩ := Cursor.brings_pulls ((Pull.tokens_eq_ok_iff _ _).mp htokens)
  have hts : HasTokens ("\n".intercalate lines) ts := ⟨e, htokens⟩
  obtain ⟨wss, hwss⟩ := hts.exists_lines
  obtain ⟨us, hus, halike⟩ := HasTokens.intercalate hwss
  obtain rfl := hus.unique hts
  -- the tokens of the lines are a program too, with a tree that looks the same
  have hprogram := derives_of_parseTokens hparse
  rw [beforeEnd_append hends he] at hprogram
  have halike' : List.Forall₂ Token.Alike us wss.flatten :=
    (halike.imp fun _ _ h => ⟨h.kind.symm, h.value.symm⟩).flip
  rw [goodTokens_of_tokenize htokens, nesting_concat (by rw [he]; decide),
    nesting_kinds (kinds_of_alike halike')] at hnesting
  obtain ⟨_, ⟨first, ns', -, -, hall, rfl⟩, l, l', ns, _, rfl, heq, -, hns⟩ :=
    hprogram.alike halike'
  injection heq with heq
  injection heq with _ heq
  subst heq
  obtain ⟨exchanges, trees, log, hlength, hend, hrun, htrees, hlaid⟩ :=
    (holds_nil (s := { modes := { verbose, room } }) rfl).run hroom rfl hwss hfeed hall hnesting
      (blanksOutside_of_endInStatement hblank) hword
  refine ⟨exchanges, trees, log, hlength, hend, ?_, htrees, ?_⟩
  · rw [start, hrun]
    rfl
  · exact hasInner_program ((statementLines_alike hns).trans hlaid) l

/-- Two statements over three lines, with comments, and a third one below a blank line. -/
def sampleLines : List String := ["# start", "x; y # ;", "+ 1; ", "", "z;"]

/-- The tree of the lines. -/
def sampleLinesTree : SyntaxTree :=
  ⟨.program 2 [.leaf 2 ⟨.ident, .text "x", 2, 1⟩,
    .binary 3 (.leaf 2 ⟨.ident, .text "y", 2, 4⟩) (.leaf 3 ⟨.intLit, .int 1, 3, 3⟩) .plus,
    .leaf 5 ⟨.ident, .text "z", 5, 1⟩]⟩

set_option maxRecDepth 100000 in
/-- The blank line of the sample stands behind a semicolon, and none of its lines is a command. -/
theorem sampleLines_printed :
    (parseText 700 ("\n".intercalate sampleLines)).outcome = .ok sampleLinesTree ∧
    ∃ (exchanges : List Exchange) (trees : List SyntaxTree) (log : List LogRecord),
      exchanges.length = sampleLines.length ∧
      ({ modes := { verbose := false, room := 700 } } : Session).afterLines sampleLines =
        some { modes := { verbose := false, room := 700 } } ∧
      start { verbose := false, room := 700 } (sampleLines.map .line) =
        ⟨.ok (), sessionBanner ++ (String.join (exchanges.map Exchange.output) ++
          (">>> " ++ breakOff.output)), log, 0⟩ ∧
      List.Forall₂ SyntaxTree.HasInner trees (exchanges.filterMap Exchange.answer) ∧
      sampleLinesTree.HasInner (exchanges.filterMap Exchange.answer).flatten := by
  have hplace : ∀ before after, sampleLines = before ++ "" :: after →
      before = ["# start", "x; y # ;", "+ 1; "] := by
    intro before after heq
    rcases before with _ | ⟨a, _ | ⟨b, _ | ⟨c, _ | ⟨d, _ | ⟨e, before⟩⟩⟩⟩⟩
    all_goals simp [sampleLines] at heq
    obtain ⟨rfl, rfl, rfl, -⟩ := heq
    rfl
  have htree : (parseText 700 ("\n".intercalate sampleLines)).outcome = .ok sampleLinesTree := by cbv
  have htokens : tokenize ("\n".intercalate sampleLines) = .ok
      [⟨.ident, .text "x", 2, 1⟩, ⟨.semicolon, .text ";", 2, 2⟩, ⟨.ident, .text "y", 2, 4⟩,
        ⟨.plus, .text "+", 3, 1⟩, ⟨.intLit, .int 1, 3, 3⟩, ⟨.semicolon, .text ";", 3, 4⟩,
        ⟨.ident, .text "z", 5, 1⟩, ⟨.semicolon, .text ";", 5, 2⟩, ⟨.endOfInput, .none, 5, 3⟩] := by cbv
  have hnesting : nesting (goodTokens ("\n".intercalate sampleLines)) ≤ guaranteedNesting := by
    rw [goodTokens_of_tokenize htokens]
    decide
  have hfront : tokenize ("\n".intercalate ["# start", "x; y # ;", "+ 1; "]) = .ok
      ([⟨.ident, .text "x", 2, 1⟩, ⟨.semicolon, .text ";", 2, 2⟩, ⟨.ident, .text "y", 2, 4⟩,
        ⟨.plus, .text "+", 3, 1⟩, ⟨.intLit, .int 1, 3, 3⟩] ++ [⟨.semicolon, .text ";", 3, 4⟩] ++
        [⟨.endOfInput, .none, 3, 6⟩]) := by cbv
  have hfeed : ∀ line ∈ sampleLines, '\n' ∉ line.toList := by decide
  have hwords : ∀ line ∈ sampleLines, commandWord line ∉ commandWords := by decide
  have hstrip : ∀ line ∈ sampleLines, strip line.toList = [] → line = "" := by decide
  refine ⟨htree, prints_program false (by decide) hfeed htree hnesting
    (fun before line after heq hblank => ?_) (fun before line after heq s _ _ => ?_)⟩
  · have hline := hstrip line (by rw [heq]; simp) hblank
    rw [hplace before after (hline ▸ heq)]
    rintro ⟨ws, t, ht, hkind⟩
    obtain ⟨-, ht⟩ := List.append_inj' (ht.unique ⟨_, hfront⟩) rfl
    injection ht with ht
    rw [ht] at hkind
    exact hkind rfl
  · exact hwords line (by rw [heq]; simp)

end Session

end MflFrontend
