import MflFrontend.Command.Run
import MflFrontend.Proofs.Grammar.Failures
import MflFrontend.Proofs.Session.Programs

/-!
# Chunks

A session cuts its lines into chunks, each of which it answers on its own. A chunk is known by its
lines: the first decides what the chunk is, and whether it is more than one line; behind that the
next line that is blank or ends with a semicolon is the last. A chunk that opens with a command or a
comment is that one line, so on a later line such words are text of the program.

The answer to a chunk depends on the modes alone and changes nothing but them.
-/

namespace MflFrontend

/-! ## Which lines are a chunk -/

/-- The words that switch a mode. -/
def modeWords : List (List Char) := [jsonModeWord, verboseModeWord]

/-- The lines leave a chunk open: the first is no command and no comment, and none is blank or ends
with a semicolon. -/
structure StaysOpen (lines : List String) : Prop where
  /-- The first line is text of a program. -/
  first : ∀ line ∈ lines.head?,
    commandWord line ∉ commandWords ∧ (strip line.toList).head? ≠ some '#'
  /-- No line ends the chunk. -/
  each : ∀ line ∈ lines, closesChunk line.toList = false ∧ strip line.toList ≠ []

/-- A line ends the chunk that consists of it and the lines before. -/
def EndsChunk (body : List String) (line : String) : Prop :=
  closesChunk line.toList = true ∨ strip line.toList = [] ∨
    body = [] ∧ (commandWord line ∈ modeWords ∨ (strip line.toList).head? = some '#')

/-- The lines are a whole chunk: they leave it open but for the last, which ends it. The words that
leave a session are no chunk. -/
def IsChunk (lines : List String) : Prop :=
  ∃ body line, lines = body ++ [line] ∧ StaysOpen body ∧ EndsChunk body line ∧
    (body = [] → commandWord line ∉ leavingWords)

/-- The chunk opens with a line that is no command, no comment and not blank. -/
def OpensProgram (lines : List String) : Prop :=
  ∃ line rest, lines = line :: rest ∧ commandWord line ∉ commandWords ∧
    ∃ c, (strip line.toList).head? = some c ∧ c ≠ '#'

/-- The chunk opens with the word. -/
def opensWith (word : List Char) (lines : List String) : Bool :=
  lines.head?.map commandWord == some word

theorem StaysOpen.front {lines more : List String} (h : StaysOpen (lines ++ more)) :
    StaysOpen lines where
  first line hline := h.first line (by rw [List.head?_append, hline]; rfl)
  each line hline := h.each line (List.mem_append_left more hline)

theorem staysOpen_nil : StaysOpen [] := ⟨nofun, nofun⟩

/-! ## What a chunk comes to -/

/-- The text of a chunk: its lines in a row, without the blanks at either end. -/
def chunkText (lines : List String) : String :=
  String.ofList (strip ("\n".intercalate lines).toList)

/-- What showing the text of a chunk comes to outside of the session. -/
def showChunk (readFile : FileReader) (modes : Modes) (lines : List String) : RunReport :=
  runShow { source := chunkText lines, literal := true, json := modes.json, room := modes.room }
    readFile

/-- The chunk is answered with the output, and the session goes on with the modes. -/
inductive Answers (readFile : FileReader) (modes : Modes) :
    List String → Modes → String → List LogRecord → Prop
  /-- The word for JSON switches it. -/
  | json {line : String} (h : commandWord line = jsonModeWord) :
      Answers readFile modes [line] { modes with json := !modes.json }
        ("[mode] >>> JSON output " ++ modeState (!modes.json) ++ "\n") []
  /-- The word for verbose errors switches them. -/
  | verbose {line : String} (h : commandWord line = verboseModeWord) :
      Answers readFile modes [line] { modes with verbose := !modes.verbose }
        ("[mode] >>> Verbose mode " ++ modeState (!modes.verbose) ++ "\n") []
  /-- A blank line or a comment is passed over. -/
  | passed {line : String} (h : ∀ c, (strip line.toList).head? = some c → c = '#') :
      Answers readFile modes [line] modes "" []
  /-- A program is shown. -/
  | shown {lines : List String} (hopens : OpensProgram lines)
      (h : (showChunk readFile modes lines).ending = .returned .none) :
      Answers readFile modes lines modes (showChunk readFile modes lines).stdout
        (parseText modes.room (chunkText lines)).log
  /-- An error of the program is one line. -/
  | rejected {lines : List String} {e : ParseError} (hopens : OpensProgram lines)
      (h : (showChunk readFile modes lines).ending = .failed (.reading (.rejected e)))
      (hmode : modes.verbose = false) :
      Answers readFile modes lines modes
        ("[error] >>> " ++ ("Line " ++ integerText e.line ++ ": " ++ e.message) ++ "\n")
        (parseText modes.room (chunkText lines)).log
  /-- In verbose mode it comes with its origin, less the frames of the stack. -/
  | traced {lines : List String} {e : ParseError} (hopens : OpensProgram lines)
      (h : (showChunk readFile modes lines).ending = .failed (.reading (.rejected e)))
      (hmode : modes.verbose = true) :
      Answers readFile modes lines modes
        ("[error] >>>\nTraceback (most recent call last):\nmfl.mfl_errors.ParseError: " ++
          ("Line " ++ integerText e.line ++ ": " ++ e.message) ++ "\n\n")
        (parseText modes.room (chunkText lines)).log

/-- Reading the chunk comes to an integer literal that is too long. -/
def Overruns (readFile : FileReader) (modes : Modes) (lines : List String) (n : Nat) : Prop :=
  OpensProgram lines ∧ MeetsLongInteger (chunkText lines).toList n ∧
    (showChunk readFile modes lines).ending = .failed (.reading (.integerTooLong n))

theorem ParseError.print_plain (e : ParseError) :
    e.print false = "[error] >>> " ++ ("Line " ++ integerText e.line ++ ": " ++ e.message) ++ "\n" :=
  if_neg Bool.false_ne_true

theorem ParseError.print_traced (e : ParseError) :
    e.print true = "[error] >>>\nTraceback (most recent call last):\nmfl.mfl_errors.ParseError: " ++
      ("Line " ++ integerText e.line ++ ": " ++ e.message) ++ "\n\n" := if_pos rfl

/-! ## The text of a chunk -/

section Text

variable {line : String} {lines : List String}

/-- The text of a chunk opens as its first line does. -/
theorem head?_chunkText {c : Char} (hc : (strip line.toList).head? = some c) (lines : List String) :
    (strip ("\n".intercalate (line :: lines)).toList).head? = some c := by
  obtain ⟨more, hmore⟩ := exists_intercalate_cons line lines
  rw [hmore]
  exact head?_strip_append hc more

/-- A chunk is no single word unless its first line is. -/
theorem chunkText_ne_word {word : List Char} (hfeed : '\n' ∉ word)
    (hfront : strip line.toList ≠ []) (hword : commandWord line ≠ word) :
    (strip ("\n".intercalate (line :: lines)).toList).map Char.toLower ≠ word := by
  intro heq
  by_cases hnil : lines = []
  · subst hnil
    rw [String.intercalate_singleton] at heq
    exact hword heq
  · rw [String.intercalate_cons_of_ne_nil hnil, toList_concat] at heq
    by_cases hmore : strip ("\n".intercalate lines).toList = []
    · have hblank : ∀ c ∈ '\n' :: ("\n".intercalate lines).toList, isBlank c = true :=
        List.forall_mem_cons.mpr ⟨rfl, strip_eq_nil_iff.mp hmore⟩
      rw [strip_append_blank hblank] at heq
      exact hword heq
    · -- the line feed stands between two characters that are no blanks, so it is part of the text
      obtain ⟨x, a, y, hline, ha⟩ := exists_of_strip_ne_nil hfront
      obtain ⟨x', b, y', hlines, hb⟩ := exists_of_strip_ne_nil hmore
      have hmem := mem_strip_between ha hb x (y ++ '\n' :: x') y' '\n' (by simp)
      rw [hline, hlines] at heq
      refine hfeed (heq ▸ List.mem_map.mpr ⟨'\n', ?_, rfl⟩)
      simpa using hmem

end Text

/-! ## Answers -/

namespace Session

section Answer

variable {readFile : FileReader} {modes : Modes} {lines : List String}

/-- A text is passed over if it is blank or a comment. -/
theorem passed_iff {source : List Char} :
    (source.isEmpty || source.head? == some '#') = true ↔
      ∀ c, source.head? = some c → c = '#' := by
  cases source <;> simp

/-- A line that is a word opens with no comment sign but one of the word. -/
theorem front_of_word {line : String} {c : Char} {word : List Char}
    (h : commandWord line = c :: word) (hne : c ≠ '#') :
    ¬ ∀ a, (strip line.toList).head? = some a → a = '#' := by
  intro hpassed
  cases hsource : strip line.toList with
  | nil =>
    rw [commandWord, hsource] at h
    cases h
  | cons a source =>
    have ha : (strip line.toList).head? = some a := by rw [hsource]; rfl
    have hsharp := head?_commandWord.mpr (hpassed a ha ▸ ha)
    rw [h] at hsharp
    exact hne (Option.some.inj hsharp)

/-- What a session does with a chunk that opens a program: it reads its text. -/
theorem closeChunk_of_opensProgram (h : OpensProgram lines) :
    closeChunk modes lines =
      match (answerChunk modes (chunkText lines)).outcome with
      | .ok _ => resume modes (answerChunk modes (chunkText lines)).output
          (answerChunk modes (chunkText lines)).log
      | .error failure => ⟨(answerChunk modes (chunkText lines)).output,
          (answerChunk modes (chunkText lines)).log, .failed failure⟩ := by
  obtain ⟨line, rest, rfl, hword, c, hc, hne⟩ := h
  have hkept : ¬ ((strip ("\n".intercalate (line :: rest)).toList).isEmpty ||
      (strip ("\n".intercalate (line :: rest)).toList).head? == some '#') = true :=
    fun h => hne (passed_iff.mp h c (head?_chunkText hc rest))
  have hfront : strip line.toList ≠ [] := by
    intro hnil
    rw [hnil] at hc
    cases hc
  have hmode : ∀ word ∈ modeWords,
      (strip ("\n".intercalate (line :: rest)).toList).map Char.toLower ≠ word := by
    intro word hmem
    have hfeed : '\n' ∉ word := by
      revert word
      decide
    refine chunkText_ne_word hfeed hfront fun heq => hword ?_
    exact heq ▸ List.mem_append_right _ hmem
  unfold closeChunk
  simp only
  rw [if_neg hkept, if_neg (hmode _ (by decide)), if_neg (hmode _ (by decide))]
  rfl

theorem run_chunk (readFile : FileReader) (modes : Modes) (lines : List String) :
    ShowRequest.run
      { source := chunkText lines, literal := true, json := modes.json, room := modes.room } readFile =
      match (parseText modes.room (chunkText lines)).outcome with
      | .ok tree => .text (tree.print modes.json) (parseText modes.room (chunkText lines)).log
      | .error failure => .fault (.reading failure) (parseText modes.room (chunkText lines)).log := rfl

theorem showChunk_of_tree {tree : SyntaxTree}
    (h : (parseText modes.room (chunkText lines)).outcome = .ok tree) :
    (showChunk readFile modes lines).ending = .returned .none ∧
      (showChunk readFile modes lines).stdout = tree.print modes.json := by
  have hshow := run_chunk readFile modes lines
  rw [h] at hshow
  simp only [showChunk, runShow, hshow, Shown.text, and_self]

theorem showChunk_of_failure {failure : Failure}
    (h : (parseText modes.room (chunkText lines)).outcome = .error failure) :
    (showChunk readFile modes lines).ending = .failed (.reading failure) := by
  have hshow := run_chunk readFile modes lines
  rw [h] at hshow
  simp only [showChunk, runShow, hshow, Shown.fault]

/-- If showing the text of a chunk fails, it is because reading it fails. -/
theorem outcome_of_showChunk {failure : Failure}
    (h : (showChunk readFile modes lines).ending = .failed (.reading failure)) :
    (parseText modes.room (chunkText lines)).outcome = .error failure := by
  cases houtcome : (parseText modes.room (chunkText lines)).outcome with
  | ok tree =>
    rw [(showChunk_of_tree houtcome).1] at h
    cases h
  | error failure' =>
    rw [showChunk_of_failure houtcome] at h
    cases h
    rfl

/-- A session does with a chunk what the answer says. -/
theorem closeChunk_of_answers {modes' : Modes} {output : String} {log : List LogRecord}
    (h : Answers readFile modes lines modes' output log) :
    closeChunk modes lines = resume modes' output log := by
  cases h with
  | @json line h =>
    unfold closeChunk
    rw [String.intercalate_singleton]
    simp only
    rw [if_neg (mt passed_iff.mp (front_of_word h (by decide)))]
    exact if_pos h
  | @verbose line h =>
    have hjson : commandWord line ≠ jsonModeWord := by
      rw [h]
      decide
    unfold closeChunk
    rw [String.intercalate_singleton]
    simp only
    rw [if_neg (mt passed_iff.mp (front_of_word h (by decide)))]
    exact (if_neg hjson).trans (if_pos h)
  | @passed line h =>
    unfold closeChunk
    rw [String.intercalate_singleton]
    exact if_pos (passed_iff.mpr h)
  | shown hopens h =>
    cases houtcome : (parseText modes.room (chunkText lines)).outcome with
    | ok tree =>
      rw [closeChunk_of_opensProgram hopens, (showChunk_of_tree houtcome).2]
      simp only [answerChunk, houtcome]
    | error failure =>
      rw [showChunk_of_failure houtcome] at h
      cases h
  | rejected hopens h hmode =>
    rw [closeChunk_of_opensProgram hopens]
    simp only [answerChunk, outcome_of_showChunk h, hmode, ParseError.print_plain]
  | traced hopens h hmode =>
    rw [closeChunk_of_opensProgram hopens]
    simp only [answerChunk, outcome_of_showChunk h, hmode, ParseError.print_traced]

theorem closeChunk_of_overruns {n : Nat} (h : Overruns readFile modes lines n) :
    closeChunk modes lines =
      ⟨"", (parseText modes.room (chunkText lines)).log, .failed (.integerTooLong n)⟩ := by
  obtain ⟨hopens, -, hoverrun⟩ := h
  rw [closeChunk_of_opensProgram hopens]
  simp only [answerChunk, outcome_of_showChunk hoverrun]

/-- The text of a program is shown or rejected, unless an integer literal is too long. -/
theorem answers_of_opensProgram (readFile : FileReader) (modes : Modes) (h : OpensProgram lines) :
    (∃ output log, Answers readFile modes lines modes output log) ∨
      ∃ n, Overruns readFile modes lines n := by
  obtain ⟨hcases, hlong, -⟩ := parseText_fails_only modes.room (chunkText lines)
  rcases hcases with ⟨tree, htree⟩ | ⟨e, he⟩ | ⟨n, hn⟩
  · exact .inl ⟨_, _, .shown h (showChunk_of_tree htree).1⟩
  · left
    cases hmode : modes.verbose with
    | false => exact ⟨_, _, .rejected h (showChunk_of_failure he) hmode⟩
    | true => exact ⟨_, _, .traced h (showChunk_of_failure he) hmode⟩
  · exact .inr ⟨n, h, ((hlong n).mp hn).1, showChunk_of_failure hn⟩

theorem opensProgram_of_staysOpen {line : String} {rest : List String}
    (h : StaysOpen (line :: rest)) (more : List String) : OpensProgram (line :: rest ++ more) := by
  obtain ⟨hword, hsharp⟩ := h.first line rfl
  obtain ⟨-, hblank⟩ := h.each line List.mem_cons_self
  obtain ⟨c, cs, hsource⟩ := List.exists_cons_of_ne_nil hblank
  refine ⟨line, rest ++ more, rfl, hword, c, by rw [hsource]; rfl, fun hc => hsharp ?_⟩
  rw [hsource, hc]
  rfl

/-- Every chunk has an answer, unless an integer literal is too long. -/
theorem exists_answer (readFile : FileReader) (modes : Modes) (h : IsChunk lines) :
    (∃ modes' output log, Answers readFile modes lines modes' output log) ∨
      ∃ n, Overruns readFile modes lines n := by
  obtain ⟨body, line, rfl, hopen, -, hstay⟩ := h
  have hprogram : OpensProgram (body ++ [line]) →
      (∃ modes' output log, Answers readFile modes (body ++ [line]) modes' output log) ∨
        ∃ n, Overruns readFile modes (body ++ [line]) n := by
    intro h
    exact (answers_of_opensProgram readFile modes h).imp_left fun h => ⟨modes, h⟩
  cases body with
  | cons first body => exact hprogram (opensProgram_of_staysOpen hopen [line])
  | nil =>
    by_cases hjson : commandWord line = jsonModeWord
    · exact .inl ⟨_, _, _, .json hjson⟩
    by_cases hverbose : commandWord line = verboseModeWord
    · exact .inl ⟨_, _, _, .verbose hverbose⟩
    by_cases hpassed : ∀ c, (strip line.toList).head? = some c → c = '#'
    · exact .inl ⟨_, _, _, .passed hpassed⟩
    push Not at hpassed
    obtain ⟨c, hc, hne⟩ := hpassed
    refine hprogram ⟨line, [], rfl, ?_, c, hc, hne⟩
    simp [commandWords, hstay rfl, hjson, hverbose]

/-- A mode is switched by the chunk that opens with its word. -/
theorem modes_of_answers {modes' : Modes} {output : String} {log : List LogRecord}
    (h : Answers readFile modes lines modes' output log) :
    modes' = ⟨modes.json ^^ opensWith jsonModeWord lines,
      modes.verbose ^^ opensWith verboseModeWord lines, modes.room⟩ := by
  have hother : OpensProgram lines → ∀ word ∈ commandWords, opensWith word lines = false := by
    rintro ⟨line, rest, rfl, hword, -⟩ word hmem
    simp only [opensWith, List.head?_cons, Option.map_some, beq_eq_false_iff_ne, ne_eq,
      Option.some.injEq]
    exact fun heq => hword (heq ▸ hmem)
  have hline : ∀ word (line : String), opensWith word [line] = (commandWord line == word) :=
    fun _ _ => rfl
  cases h with
  | json h =>
    rw [hline, hline, h]
    simp [jsonModeWord, verboseModeWord]
  | verbose h =>
    rw [hline, hline, h]
    simp [jsonModeWord, verboseModeWord]
  | @passed line h =>
    have hjson : commandWord line ≠ jsonModeWord := fun heq => front_of_word heq (by decide) h
    have hverbose : commandWord line ≠ verboseModeWord := fun heq => front_of_word heq (by decide) h
    rw [hline, hline, beq_eq_false_iff_ne.mpr hjson, beq_eq_false_iff_ne.mpr hverbose,
      Bool.xor_false, Bool.xor_false]
  | shown hopens _ =>
    rw [hother hopens _ (by decide), hother hopens _ (by decide), Bool.xor_false, Bool.xor_false]
  | rejected hopens _ _ =>
    rw [hother hopens _ (by decide), hother hopens _ (by decide), Bool.xor_false, Bool.xor_false]
  | traced hopens _ _ =>
    rw [hother hopens _ (by decide), hother hopens _ (by decide), Bool.xor_false, Bool.xor_false]

/-- Behind lines that leave a chunk open, a line leaves the session, is taken up by the chunk or ends
it. -/
theorem line_cases {pending : List String} (h : StaysOpen pending) (line : String) :
    (pending = [] ∧ commandWord line ∈ leavingWords) ∨ StaysOpen (pending ++ [line]) ∨
      IsChunk (pending ++ [line]) := by
  by_cases hleave : pending = [] ∧ commandWord line ∈ leavingWords
  · exact .inl hleave
  by_cases hends : EndsChunk pending line
  · exact .inr (.inr ⟨pending, line, rfl, h, hends, fun hp hmem => hleave ⟨hp, hmem⟩⟩)
  unfold EndsChunk at hends
  push Not at hends
  obtain ⟨hopen, hblank, halone⟩ := hends
  refine .inr (.inl ⟨?_, ?_⟩)
  · intro first hfirst
    cases pending with
    | nil =>
      cases hfirst
      obtain ⟨hmode, hsharp⟩ := halone rfl
      refine ⟨fun hmem => ?_, hsharp⟩
      rcases List.mem_append.mp hmem with hmem | hmem
      · exact hleave ⟨rfl, hmem⟩
      · exact hmode hmem
    | cons a pending => exact h.first first hfirst
  · intro a ha
    rcases List.mem_append.mp ha with ha | ha
    · exact h.each a ha
    · cases List.mem_singleton.mp ha
      exact ⟨Bool.eq_false_iff.mpr hopen, hblank⟩

end Answer

end Session

end MflFrontend
