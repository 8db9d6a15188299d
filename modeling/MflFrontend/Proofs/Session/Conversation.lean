import MflFrontend.Proofs.Session.Chunks

/-!
# Sessions, chunk by chunk

A session is a fold over its chunks: each is answered, and all that one chunk hands to the next are
the modes. So a session from which some chunks were taken off the front, with the modes switched as
often as those chunks ask for it, goes on as if they had been there. Where the events have no whole
chunk left, the session ends.
-/

namespace MflFrontend

/-- The prompts in front of that many lines, of which the first opens a chunk. -/
def prompts : Nat → String
  | 0 => ""
  | 1 => ">>> "
  | n + 2 => prompts (n + 1) ++ "... "

/-- The chunks are answered one after the other, each with the modes that the one before it left. -/
inductive AnswersAll (readFile : FileReader) :
    Modes → List (List String) → Modes → String → List LogRecord → Prop
  | nil (modes : Modes) : AnswersAll readFile modes [] modes "" []
  | cons {modes modes' modes'' : Modes} {lines : List String} {chunks : List (List String)}
      {output output' : String} {log log' : List LogRecord} (hchunk : IsChunk lines)
      (hanswer : Answers readFile modes lines modes' output log)
      (hrest : AnswersAll readFile modes' chunks modes'' output' log') :
      AnswersAll readFile modes (lines :: chunks) modes''
        (prompts lines.length ++ output ++ output') (log ++ log')

/-- A session in which no chunk is open ends on the events, of which no whole chunk is answered
before. -/
inductive Ends (readFile : FileReader) (modes : Modes) : List Event → Transcript → Prop
  /-- A word to leave opens a chunk. -/
  | leave {line : String} {events : List Event} (hword : commandWord line ∈ leavingWords) :
      Ends readFile modes (.line line :: events)
        ⟨.ok (), ">>> " ++ sessionFarewell, [], events.length⟩
  /-- The user breaks off, and the open chunk is dropped. -/
  | interrupt {lines : List String} {events : List Event} (hopen : StaysOpen lines) :
      Ends readFile modes (lines.map .line ++ .interrupt :: events)
        ⟨.ok (), prompts (lines.length + 1) ++ ("\n" ++ sessionFarewell), [], events.length⟩
  /-- The input ends, and the open chunk is dropped. -/
  | finish {lines : List String} (hopen : StaysOpen lines) :
      Ends readFile modes (lines.map .line)
        ⟨.ok (), prompts (lines.length + 1) ++ ("\n" ++ sessionFarewell), [], 0⟩
  /-- A chunk has an integer literal that is too long. -/
  | overrun {lines : List String} {events : List Event} {n : Nat} (hchunk : IsChunk lines)
      (hoverrun : Overruns readFile modes lines n) :
      Ends readFile modes (lines.map .line ++ events)
        ⟨.error (.integerTooLong n), prompts lines.length, (parseText modes.room (chunkText lines)).log,
          events.length⟩

/-- A session on the events answers chunks until it ends. -/
inductive Conversation (readFile : FileReader) (modes : Modes) : List Event → Transcript → Prop
  | intro {modes' : Modes} {chunks : List (List String)} {output : String} {log : List LogRecord}
      {events : List Event} {t : Transcript}
      (hanswers : AnswersAll readFile modes chunks modes' output log)
      (hends : Ends readFile modes' events t) :
      Conversation readFile modes (chunks.flatten.map .line ++ events) (t.after output log)

namespace Session

section Enter

variable {s : Session} {line : String}

theorem prompts_succ (s : Session) : prompts (s.pending.length + 1) =
    prompts s.pending.length ++ s.prompt := by
  obtain ⟨modes, pending⟩ := s
  cases pending <;> rfl

theorem enter_of_staysOpen (h : StaysOpen (s.pending ++ [line])) :
    s.enter line = ⟨"", [], .session { s with pending := s.pending ++ [line] }⟩ := by
  obtain ⟨hopen, hblank⟩ := h.each line (by simp)
  have hfirst : s.pending = [] → commandWord line ∉ commandWords ∧
      (strip line.toList).head? ≠ some '#' := fun hs => h.first line (by rw [hs]; rfl)
  exact enter_extends (fun hs => (hfirst hs).1) hopen hblank (fun hs => (hfirst hs).2)

theorem enter_of_isChunk (h : IsChunk (s.pending ++ [line])) :
    s.enter line = closeChunk s.modes (s.pending ++ [line]) := by
  obtain ⟨modes, pending⟩ := s
  obtain ⟨body, last, heq, -, hends, hstay⟩ := h
  obtain ⟨hbody, hline⟩ := List.append_inj' heq rfl
  cases hline
  obtain rfl : pending = body := hbody
  have hcloses : closes ⟨modes, pending⟩ line = true := by
    unfold closes
    rcases hends with hclose | hblank | ⟨hs, hword | hsharp⟩
    · simp [hclose]
    · have hword : commandWord line = [] := by rw [commandWord, hblank]; rfl
      simp [hword]
    · have halone : standsAlone (commandWord line) = true := by
        simp only [modeWords, List.mem_pair] at hword
        simpa [standsAlone] using .inl hword
      simp [hs, halone]
    · have halone : standsAlone (commandWord line) = true := by
        simp [standsAlone, head?_commandWord.mpr hsharp]
      simp [hs, halone]
  rw [enter_eq hstay, if_pos hcloses]

end Enter

/-! ## Going on -/

/-- The session goes on after all of the events, and what it printed for them and left of records. -/
inductive Reaches : Session → List Event → String → List LogRecord → Session → Prop
  | nil (s : Session) : Reaches s [] "" [] s
  | step {s s' s'' : Session} {event : Event} {events : List Event} {output output' : String}
      {log log' : List LogRecord} (hreact : s.react (some event) = ⟨output, log, .session s'⟩)
      (hrest : Reaches s' events output' log' s'') :
      Reaches s (event :: events) (s.prompt ++ output ++ output') (log ++ log') s''

theorem after_after (t : Transcript) (output output' : String) (log log' : List LogRecord) :
    (t.after output' log').after output log = t.after (output ++ output') (log ++ log') := by
  simp only [Transcript.after, String.append_assoc, List.append_assoc]

theorem after_empty (t : Transcript) : t.after "" [] = t := by
  simp [Transcript.after]

section Reaches

variable {s s' s'' : Session} {front back : List Event} {output output' : String}
  {log log' : List LogRecord}

theorem reaches_line {line : String} (henter : s.enter line = ⟨output, log, .session s'⟩) :
    Reaches s [.line line] (s.prompt ++ output) log s' := by
  have hreact : s.react (some (.line line)) = ⟨output, log, .session s'⟩ := henter
  have hstep := Reaches.step hreact (.nil s')
  rw [String.append_empty, List.append_nil] at hstep
  exact hstep

theorem reaches_append (h : Reaches s front output log s') (h' : Reaches s' back output' log' s'') :
    Reaches s (front ++ back) (output ++ output') (log ++ log') s'' := by
  induction h with
  | nil s =>
    rw [String.empty_append]
    exact h'
  | step hreact _ ih =>
    rw [String.append_assoc, List.append_assoc]
    exact .step hreact (ih h')

/-- What comes after the events is answered by the session that they lead to. -/
theorem run_of_reaches (h : Reaches s front output log s') (back : List Event) :
    s.run (front ++ back) = (s'.run back).after output log := by
  induction h with
  | nil s => exact (after_empty _).symm
  | step hreact _ ih =>
    rw [List.cons_append, run, hreact, ← after_after, ← ih]

end Reaches

section Chunks

variable {readFile : FileReader} {modes modes' : Modes} {lines : List String}
  {chunks : List (List String)} {output : String} {log : List LogRecord}

/-- Lines that leave a chunk open are only taken up. -/
theorem reaches_of_staysOpen (h : StaysOpen lines) :
    Reaches { modes } (lines.map .line) (prompts lines.length) [] ⟨modes, lines⟩ := by
  induction lines using List.reverseRecOn with
  | nil => exact .nil _
  | append_singleton lines line ih =>
    have henter : (⟨modes, lines⟩ : Session).enter line =
        ⟨"", [], .session ⟨modes, lines ++ [line]⟩⟩ := enter_of_staysOpen h
    have hreaches := reaches_append (ih h.front) (reaches_line henter)
    have hprompts := prompts_succ ⟨modes, lines⟩
    rw [String.append_empty, ← hprompts] at hreaches
    rw [List.map_append, List.length_append]
    exact hreaches

/-- The lines of a chunk are taken up, and the last closes it. -/
theorem reaches_of_isChunk (h : IsChunk lines) (modes : Modes) :
    ∃ s : Session, ∃ line, s.modes = modes ∧ s.pending ++ [line] = lines ∧
      s.enter line = closeChunk modes lines ∧
      Reaches { modes } (s.pending.map .line) (prompts s.pending.length) [] s := by
  obtain ⟨body, line, rfl, hopen, hends, hstay⟩ := id h
  exact ⟨⟨modes, body⟩, line, rfl, rfl, enter_of_isChunk h, reaches_of_staysOpen hopen⟩

theorem reaches_of_answers (hchunk : IsChunk lines)
    (hanswer : Answers readFile modes lines modes' output log) :
    Reaches { modes } (lines.map .line) (prompts lines.length ++ output) log
      { modes := modes' } := by
  obtain ⟨s, line, rfl, rfl, henter, hreaches⟩ := reaches_of_isChunk hchunk modes
  rw [closeChunk_of_answers hanswer] at henter
  have hall := reaches_append hreaches (reaches_line henter)
  rw [← String.append_assoc, ← prompts_succ, List.nil_append] at hall
  rw [List.map_append, List.length_append]
  exact hall

theorem reaches_of_answersAll (h : AnswersAll readFile modes chunks modes' output log) :
    Reaches { modes } (chunks.flatten.map .line) output log { modes := modes' } := by
  induction h with
  | nil modes => exact .nil _
  | cons hchunk hanswer _ ih =>
    rw [List.flatten_cons, List.map_append]
    exact reaches_append (reaches_of_answers hchunk hanswer) ih

/-- The modes are switched as often as chunks open with their words. -/
theorem modes_of_answersAll (h : AnswersAll readFile modes chunks modes' output log) :
    modes' = ⟨not^[chunks.countP (opensWith jsonModeWord)] modes.json,
      not^[chunks.countP (opensWith verboseModeWord)] modes.verbose, modes.room⟩ := by
  have hcons : ∀ (word : List Char) (lines : List String) (chunks : List (List String)) (on : Bool),
      not^[(lines :: chunks).countP (opensWith word)] on =
        not^[chunks.countP (opensWith word)] (on ^^ opensWith word lines) := by
    intro word lines chunks on
    cases hopens : opensWith word lines with
    | true => rw [List.countP_cons_of_pos hopens, Function.iterate_succ_apply, Bool.xor_true]
    | false => rw [List.countP_cons_of_neg (by simp [hopens]), Bool.xor_false]
  induction h with
  | nil modes => rfl
  | cons hchunk hanswer hrest ih =>
    rw [hcons, hcons, ih, modes_of_answers hanswer]

end Chunks

/-! ## Whole sessions -/

section Run

variable {readFile : FileReader} {modes modes' : Modes} {lines : List String} {output : String}
  {log : List LogRecord} {events : List Event} {t : Transcript}

theorem run_of_ends (h : Ends readFile modes events t) : ({ modes } : Session).run events = t := by
  cases h with
  | @leave line events hword =>
    have hleave : (({ modes } : Session).pending.isEmpty &&
        leavingWords.contains (commandWord line)) = true :=
      List.contains_iff_mem.mpr hword
    simp only [run, react, enter, if_pos hleave]
    rfl
  | @interrupt lines events hopen =>
    have hprompts := prompts_succ ⟨modes, lines⟩
    rw [run_of_reaches (reaches_of_staysOpen hopen), hprompts, String.append_assoc]
    simp only [run, react]
    rfl
  | @finish lines hopen =>
    have hprompts := prompts_succ ⟨modes, lines⟩
    have hreaches : Reaches { modes } (lines.map .line) _ [] _ := reaches_of_staysOpen hopen
    have hrun := run_of_reaches hreaches []
    rw [List.append_nil] at hrun
    rw [hrun, hprompts, String.append_assoc]
    simp only [run]
    rfl
  | @overrun lines events n hchunk hoverrun =>
    obtain ⟨s, line, rfl, rfl, henter, hreaches⟩ := reaches_of_isChunk hchunk modes
    rw [closeChunk_of_overruns hoverrun] at henter
    rw [List.map_append, List.append_assoc, run_of_reaches hreaches, List.length_append,
      List.length_singleton, prompts_succ]
    simp only [List.map_singleton, List.singleton_append, run, react, henter, Transcript.after,
      String.append_empty, List.nil_append]

theorem conversation_of_answers (hchunk : IsChunk lines)
    (hanswer : Answers readFile modes lines modes' output log)
    (h : Conversation readFile modes' events t) :
    Conversation readFile modes (lines.map .line ++ events)
      (t.after (prompts lines.length ++ output) log) := by
  cases h with
  | intro hanswers hends =>
    have hall := Conversation.intro (.cons hchunk hanswer hanswers) hends
    rw [List.flatten_cons, List.map_append, List.append_assoc] at hall
    rw [after_after]
    exact hall

theorem conversation_of_ends (h : Ends readFile modes events t) :
    Conversation readFile modes events t := by
  have hall := Conversation.intro (.nil modes) h
  rw [after_empty] at hall
  exact hall

/-- Behind lines that leave a chunk open, all events are a conversation. -/
theorem exists_conversation (readFile : FileReader) {pending : List String} (h : StaysOpen pending)
    (modes : Modes) (events : List Event) :
    ∃ t, Conversation readFile modes (pending.map .line ++ events) t := by
  induction events generalizing modes pending with
  | nil =>
    rw [List.append_nil]
    exact ⟨_, conversation_of_ends (.finish h)⟩
  | cons event events ih =>
    cases event with
    | interrupt => exact ⟨_, conversation_of_ends (.interrupt h)⟩
    | line line =>
      have hsplit : pending.map .line ++ .line line :: events =
          (pending ++ [line]).map .line ++ events := by simp
      rcases line_cases h line with ⟨rfl, hleave⟩ | hopen | hchunk
      · exact ⟨_, conversation_of_ends (.leave hleave)⟩
      · rw [hsplit]
        exact ih hopen modes
      · rw [hsplit]
        rcases exists_answer readFile modes hchunk with ⟨modes', output, log, hanswer⟩ | ⟨n, hoverrun⟩
        · obtain ⟨t, ht⟩ := ih staysOpen_nil modes'
          exact ⟨_, conversation_of_answers hchunk hanswer ht⟩
        · exact ⟨_, conversation_of_ends (.overrun hchunk hoverrun)⟩

/-- The conversation on some events is what the session comes to. -/
theorem conversation_iff_run :
    Conversation readFile modes events t ↔ ({ modes } : Session).run events = t := by
  have hrun : ∀ {t}, Conversation readFile modes events t → ({ modes } : Session).run events = t := by
    intro t h
    cases h with
    | intro hanswers hends =>
      rw [run_of_reaches (reaches_of_answersAll hanswers), run_of_ends hends]
  constructor
  · exact hrun
  · rintro rfl
    obtain ⟨t, ht⟩ := exists_conversation readFile staysOpen_nil modes events
    have ht : Conversation readFile modes events t := ht
    exact hrun ht ▸ ht

end Run

/-- A session that is back at an open prompt has answered whole chunks. -/
theorem exists_chunks_of_reaches (readFile : FileReader) {s s' : Session} {front : List Event}
    {output : String} {log : List LogRecord} (h : Reaches s front output log s')
    (hopen : StaysOpen s.pending) (hidle : s'.pending = []) :
    ∃ chunks : List (List String), s.pending.map .line ++ front = chunks.flatten.map .line ∧
      AnswersAll readFile s.modes chunks s'.modes (prompts s.pending.length ++ output) log := by
  induction h with
  | nil s =>
    rw [hidle]
    exact ⟨[], rfl, .nil _⟩
  | @step s s₁ s₂ event front output output' log log' hreact hrest ih =>
    cases event with
    | interrupt => cases hreact
    | line line =>
      have henter : s.enter line = ⟨output, log, .session s₁⟩ := hreact
      have hsplit : s.pending.map .line ++ .line line :: front =
          (s.pending ++ [line]).map .line ++ front := by simp
      rw [hsplit]
      rcases line_cases hopen line with ⟨hs, hleave⟩ | hopen' | hchunk
      · have hleaves : (s.pending.isEmpty && leavingWords.contains (commandWord line)) = true := by
          rw [hs]
          exact List.contains_iff_mem.mpr hleave
        have hleft : s.enter line = ⟨sessionFarewell, [], .left⟩ := if_pos hleaves
        rw [henter] at hleft
        cases hleft
      · have htaken := enter_of_staysOpen hopen'
        rw [henter] at htaken
        cases htaken
        obtain ⟨chunks, hfront, hanswers⟩ := ih hopen' hidle
        rw [List.length_append, List.length_singleton, prompts_succ, String.append_assoc] at hanswers
        rw [String.append_empty]
        exact ⟨chunks, hfront, hanswers⟩
      · have hclosed := enter_of_isChunk hchunk
        rw [henter] at hclosed
        rcases exists_answer readFile s.modes hchunk with ⟨modes', o, l, hanswer⟩ | ⟨n, hoverrun⟩
        · rw [closeChunk_of_answers hanswer] at hclosed
          cases hclosed
          obtain ⟨chunks, hfront, hanswers⟩ := ih staysOpen_nil hidle
          have hfront : front = chunks.flatten.map .line := hfront
          have hall := AnswersAll.cons hchunk hanswer hanswers
          rw [List.length_append, List.length_singleton, prompts_succ] at hall
          refine ⟨(s.pending ++ [line]) :: chunks, ?_, ?_⟩
          · rw [hfront, List.flatten_cons, ← List.map_append]
          · simpa only [String.append_assoc, List.length_nil, prompts, String.empty_append] using hall
        · rw [closeChunk_of_overruns hoverrun] at hclosed
          cases hclosed

/-- A session answers its chunks one by one until it ends, and in no other way. Where it is back at an
open prompt, it has answered whole chunks; on the events to come it does what a session does that is
started on them, in the modes that are switched as often as those chunks opened with their words. -/
theorem run_chunkwise (readFile : FileReader) (modes : Modes) :
    (∀ events t, Conversation readFile modes events t ↔ ({ modes } : Session).run events = t) ∧
    ∀ front s output log, Reaches { modes } front output log s → s.pending = [] →
      ∃ chunks : List (List String), front = chunks.flatten.map .line ∧
        AnswersAll readFile modes chunks s.modes output log ∧
        s.modes = ⟨not^[chunks.countP (opensWith jsonModeWord)] modes.json,
          not^[chunks.countP (opensWith verboseModeWord)] modes.verbose, modes.room⟩ ∧
        ∀ back, ∃ t : Transcript, start s.modes back = t.after sessionBanner [] ∧
          start modes (front ++ back) = t.after (sessionBanner ++ output) log := by
  refine ⟨fun events t => conversation_iff_run, fun front s output log hreaches hidle => ?_⟩
  obtain ⟨chunks, hfront, hanswers⟩ := exists_chunks_of_reaches readFile hreaches staysOpen_nil hidle
  have hfront : front = chunks.flatten.map .line := hfront
  have hanswers : AnswersAll readFile modes chunks s.modes output log := by
    simpa [prompts] using hanswers
  refine ⟨chunks, hfront, hanswers, modes_of_answersAll hanswers, fun back => ?_⟩
  obtain ⟨modes', pending⟩ := s
  have hidle : pending = [] := hidle
  subst hidle
  refine ⟨({ modes := modes' } : Session).run back, rfl, ?_⟩
  rw [start, run_of_reaches hreaches, after_after]
  rfl

/-- A line that switches a mode, and a chunk in which a command is text of a program with an error. -/
def sampleFront : List Event := [.line "JSON-mode ", .line "x +", .line "exit", .line ""]

set_option maxRecDepth 100000 in
/-- Behind the sample a session goes on as one that is started with JSON switched on. -/
theorem sampleFront_resumed : ∃ output log, ∀ back, ∃ t : Transcript,
    start { json := true, room := 40 } back = t.after sessionBanner [] ∧
      start { room := 40 } (sampleFront ++ back) = t.after (sessionBanner ++ output) log := by
  have hopen : StaysOpen ["x +", "exit"] := ⟨by decide, by decide⟩
  have hchunk : IsChunk (["x +", "exit"] ++ [""]) :=
    ⟨_, _, rfl, hopen, .inr (.inl (by decide)), nofun⟩
  have halone : IsChunk ["JSON-mode "] :=
    ⟨[], _, rfl, staysOpen_nil, .inr (.inr ⟨rfl, .inl (by decide)⟩), by decide⟩
  have hmode : Answers (fun _ => .ok []) { room := 40 } ["JSON-mode "]
      { json := true, room := 40 } _ _ := .json (by decide)
  have houtcome : (parseText 40 (chunkText ["x +", "exit", ""])).outcome = .error (.rejected
      (.unexpected (.expected .semicolon) ⟨.endOfInput, .none, 2, 5⟩ 2)) := by cbv
  have hrejected : Answers (fun _ => .ok []) { json := true, room := 40 } ["x +", "exit", ""] _ _ _ :=
    .rejected (opensProgram_of_staysOpen hopen [""]) (showChunk_of_failure houtcome) rfl
  have hanswers := AnswersAll.cons halone hmode (.cons hchunk hrejected (.nil _))
  obtain ⟨-, hsplit⟩ := run_chunkwise (fun _ => .ok []) { room := 40 }
  obtain ⟨chunks, -, -, -, hback⟩ := hsplit sampleFront _ _ _ (reaches_of_answersAll hanswers) rfl
  exact ⟨_, _, hback⟩

end Session

end MflFrontend
