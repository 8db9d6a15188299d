import MflFrontend.Proofs.Command.Arguments
import MflFrontend.Proofs.Command.Dump
import MflFrontend.Proofs.Grammar.Messages
import MflFrontend.Proofs.Grammar.Records
import MflFrontend.Proofs.Json.Programs
import MflFrontend.Proofs.Node.Blocks

/-!
# Texts shown in full or not at all

A command line that shows a text prints all that was asked for, the tokens or the tree, or it prints
nothing and reports one error. Everything is read before anything is printed, and the failure that
ends the reading is the only one: it leaves one record, and the same line and message go into the
report of the command line. How much of the text was good before does not matter.

The command line takes up some of the stack itself, so that it may refuse a text with deeply nested
parentheses that a parse in its place would read. Up to the nesting that is sure to go well it reads
what the parse reads.
-/

namespace MflFrontend

/-- The command line asks for a text to be shown: flags, among them the one that says that the
source is a text, then the separator and the text. It asks neither for help nor for a session. -/
structure AsksToShow (flags : List Flag) (text : String) (arguments : List String) : Prop where
  words : ∃ ws, arguments = ws ++ ["--", text] ∧
    List.Forall₂ (fun f w => Flag.SpelledBy f w.toList) flags ws
  literal : .literal ∈ flags
  session : .session ∉ flags
  compatible : Flag.Compatible flags

/-- The run came back with a status and wrote two texts. -/
structure RunReport.Wrote (r : RunReport) (status : Int) (stdout stderr : String) : Prop where
  ending : r.ending = .returned (.int status)
  stdout : r.stdout = stdout
  stderr : r.stderr = stderr

namespace ParseError

/-- Where the error came up, as the log names it. -/
def origin (e : ParseError) : String :=
  match e.token? with
  | none => "mfl.mfl_lexer: Lexical error"
  | some _ => "mfl.mfl_parser: Parse error"

/-- The error as a line of the log, which a quiet run does not write. -/
def logLine (e : ParseError) (flags : List Flag) : String :=
  if .quiet ∈ flags then ""
  else "[ERROR] " ++ e.origin ++ " on line " ++ integerText e.line ++ ": " ++ e.message ++ "\n"

/-- The error as the command line reports it. -/
def answerLine (e : ParseError) : String :=
  "[error] >>> Line " ++ integerText e.line ++ ": " ++ e.message ++ "\n"

end ParseError

/-- The note about `n` statements, which only a verbose run writes. -/
def noteLine (n : Nat) (flags : List Flag) : String :=
  if .verbose ∈ flags then
    "[DEBUG] mfl.mfl_parser: Parsed " ++ integerText n ++ " statement(s)\n"
  else ""

/-- The text is the whole tree in the form that the flags ask for. As JSON it says the record of the
tree, if no token of the tree carries an infinite number. -/
def Node.DisplayedAs (n : Node) (flags : List Flag) (shown : String) : Prop :=
  if .json ∈ flags then
    ∃ d, n.record = .ok d ∧ shown = d.json ∧ (¬ n.HasInfinity → Says (shown ++ "\n") d)
  else n.render 0 = .ok shown

/-- What a text is shown as, if the parse has this room: all of its tokens, its whole tree, or an
error and nothing else. -/
inductive AllOrNothing (room : Nat) (flags : List Flag) (text : String) (r : RunReport) : Prop where
  | tokens {ts : List Token} {lines : List String} (hasked : .tokens ∈ flags)
      (hread : tokenize text = .ok ts) (hlines : List.Forall₂ Token.DumpedAs ts lines)
      (hwrote : r.Wrote 0 (String.join lines) "")
  | tree {line : Int} {ns : List Node} {shown : String} (hasked : .tokens ∉ flags)
      (hread : (parseText room text).outcome = .ok ⟨.program line ns⟩)
      (hshown : (Node.program line ns).DisplayedAs flags shown)
      (hwrote : r.Wrote 0 (shown ++ "\n") (noteLine ns.length flags))
  | error {e : ParseError}
      (hread : if .tokens ∈ flags then tokenize text = .error (.rejected e)
        else (parseText room text).outcome = .error (.rejected e))
      (hline : '\n' ∉ e.message.toList)
      (hwrote : r.Wrote 1 "" (e.logLine flags ++ e.answerLine))

/-! ## What is written of records -/

section Records

variable {flags : List Flag} {source? : Option String}

theorem Options.severity_eq : Options.severity ⟨source?, flags⟩ =
    if .verbose ∈ flags then .debug else if .quiet ∈ flags then .critical else .warning := by
  simp only [severity, has, List.contains_iff_mem]

theorem Logging.writeAll_singleton (l : Logging) (r : LogRecord) : l.writeAll [r] = l.write r :=
  String.empty_append

/-- One handler writes the records of its level and above. -/
theorem Logging.write_configured {level : Severity} (hlevel : level ≠ .unset) (r : LogRecord) :
    (configured level).write r =
      if r.severity.rank < level.rank then ""
      else "[" ++ r.severity.name ++ "] " ++ r.channel ++ ": " ++ r.message ++ "\n" := by
  unfold write threshold configured
  rw [if_neg hlevel]
  rfl

theorem ParseError.record_line (e : ParseError) :
    "[" ++ e.record.severity.name ++ "] " ++ e.record.channel ++ ": " ++ e.record.message ++ "\n" =
      "[ERROR] " ++ e.origin ++ " on line " ++ integerText e.line ++ ": " ++ e.message ++ "\n" := by
  obtain ⟨hseverity, hlexical, hparse⟩ := e.record_describes
  refine String.toList_injective ?_
  cases htoken : e.token? with
  | none =>
    obtain ⟨hchannel, hmessage⟩ := hlexical htoken
    rw [hseverity, hchannel, hmessage, origin, htoken]
    simp [Severity.name]
  | some t =>
    obtain ⟨hchannel, hmessage⟩ := hparse t htoken
    rw [hseverity, hchannel, hmessage, origin, htoken]
    simp [Severity.name]

theorem ParseError.write_record (h : Flag.Compatible flags) (e : ParseError) :
    (Logging.configured (Options.severity ⟨source?, flags⟩)).write e.record = e.logLine flags := by
  have hseverity : e.record.severity = .error := e.record_describes.1
  rw [Options.severity_eq, logLine, ← e.record_line]
  by_cases hverbose : Flag.verbose ∈ flags
  · have hquiet : Flag.quiet ∉ flags := fun hquiet => h.levels ⟨hverbose, hquiet⟩
    rw [if_pos hverbose, if_neg hquiet, Logging.write_configured (by decide), hseverity]
    rfl
  · rw [if_neg hverbose]
    by_cases hquiet : Flag.quiet ∈ flags
    · rw [if_pos hquiet, if_pos hquiet, Logging.write_configured (by decide), hseverity]
      rfl
    · rw [if_neg hquiet, if_neg hquiet, Logging.write_configured (by decide), hseverity]
      rfl

theorem write_parsed (n : Nat) :
    (Logging.configured (Options.severity ⟨source?, flags⟩)).write (.parsed n) =
      noteLine n flags := by
  rw [Options.severity_eq, noteLine]
  by_cases hverbose : Flag.verbose ∈ flags
  · rw [if_pos hverbose, if_pos hverbose, Logging.write_configured (by decide)]
    refine String.toList_injective ?_
    show ("[" ++ "DEBUG" ++ "] " ++ "mfl.mfl_parser" ++ ": " ++
      ("Parsed " ++ integerText n ++ " statement(s)") ++ "\n").toList = _
    simp
  · rw [if_neg hverbose, if_neg hverbose]
    by_cases hquiet : Flag.quiet ∈ flags
    · rw [if_pos hquiet, Logging.write_configured (by decide)]
      rfl
    · rw [if_neg hquiet, Logging.write_configured (by decide)]
      rfl

end Records

/-! ## What is read -/

section Reading

variable {text : String} (hshort : ∀ fs rest, Factors text.toList fs rest → ShortIntegers fs)

include hshort

/-- A text without integer literals that are too long becomes tokens or is rejected. -/
theorem tokenize_or_rejected : (∃ ts, tokenize text = .ok ts) ∨
    ∃ e, tokenize text = .error (.rejected e) := by
  rcases factors_or_failure (Cursor.start text) with ⟨fs, last, hfs, hlast⟩ | ⟨fs, last, hfs, hlong⟩ | he
  · obtain ⟨ts, hts⟩ := hfs.exists_tokens [] last
    exact .inl ⟨ts, hfs.tokenize_ok hlast (hshort fs last hfs) hts⟩
  · exact absurd (hshort fs last hfs) hlong
  · exact .inr he

/-- It becomes a tree, whose statements are counted by the only record, or it is rejected, and the
only record is that of the error. -/
theorem parseText_or_rejected (room : Nat) :
    (∃ line ns, parseText room text = ⟨.ok ⟨.program line ns⟩, [.parsed ns.length]⟩) ∨
      ∃ e, parseText room text = ⟨.error (.rejected e), [e.record]⟩ := by
  rcases parseSource_eq room (.ofText text) with htree | ⟨failure, hfailure⟩
  · exact .inl htree
  · right
    have houtcome : (parseText room text).outcome = .error failure := by
      rw [parseText, hfailure]
    obtain ⟨hcases, hlong, -⟩ := parseText_fails_only room text
    rcases hcases with ⟨tree, htree⟩ | ⟨e, he⟩ | ⟨n, hn⟩
    · rw [houtcome] at htree
      cases htree
    · rw [houtcome] at he
      injection he with he
      subst he
      exact ⟨e, hfailure⟩
    · have hlexer := tokenize_integerTooLong.mpr ((hlong n).mp hn).1
      rcases tokenize_or_rejected hshort with ⟨ts, hts⟩ | ⟨e, he⟩
      · rw [hlexer] at hts
        cases hts
      · rw [hlexer] at he
        cases he

end Reading

/-! ## What is printed -/

section Printing

variable {room : Nat} {flags : List Flag} {text : String}

/-- A tree that was read from a text is printed whole, as a line or lines that end with a line
feed. -/
theorem exists_displayed {tree : SyntaxTree} (h : (parseText room text).outcome = .ok tree)
    (flags : List Flag) : ∃ shown, tree.root.DisplayedAs flags shown ∧
      tree.print (decide (.json ∈ flags)) = shown ++ "\n" := by
  have hfree : tree.root.StrayFree := Node.IsPart.strayFree (.inl (parseSource_wellShaped h))
  by_cases hjson : Flag.json ∈ flags
  · refine ⟨tree.root.document.json, ?_, ?_⟩
    · rw [Node.DisplayedAs, if_pos hjson]
      refine ⟨_, hfree.record, rfl, fun hfinite => ?_⟩
      rw [← tree.root.document_hasInfinity_iff] at hfinite
      exact (tree.root.document.json_line.2 _).mpr ⟨rfl, hfinite⟩
    · rw [decide_eq_true hjson]
      exact print_json hfree
  · obtain ⟨inner, hinner⟩ := exists_inner_of_parseText h
    refine ⟨"\n".intercalate ("Prog(" :: (inner ++ [")"])), ?_, ?_⟩
    · rw [Node.DisplayedAs, if_neg hjson]
      exact hinner.render
    · rw [decide_eq_false hjson, SyntaxTree.print, if_neg Bool.false_ne_true, Node.printed,
        hinner.render]
      rfl

/-- The run that a command line comes to. -/
theorem runCommand_eq {arguments : List String} (h : AsksToShow flags text arguments)
    (events : List Event) (readFile : FileReader) :
    runCommand room arguments events readFile =
      (ShowRequest.showText
        ⟨text, true, decide (.json ∈ flags), decide (.tokens ∈ flags), showRoom room⟩
        text).report (.configured (Options.severity ⟨some text, flags⟩)) events.length := by
  obtain ⟨ws, rfl, hwords⟩ := h.words
  have hoptions := Options.ofArguments_flags hwords h.compatible text
  have hrequest : Options.request? ⟨some text, flags⟩ (showRoom room) =
      some ⟨text, true, decide (.json ∈ flags), decide (.tokens ∈ flags), showRoom room⟩ := by
    simp [Options.request?, Options.has, h.session, h.literal]
  have hplan : Plan.ofArguments room (ws ++ ["--", text]) =
      .source (.configured (Options.severity ⟨some text, flags⟩))
        ⟨text, true, decide (.json ∈ flags), decide (.tokens ∈ flags), showRoom room⟩ := by
    rw [Plan.ofArguments, if_neg (by simp), hoptions]
    show Plan.ofOptions _ room = _
    rw [Plan.ofOptions, hrequest]
  rw [runCommand, hplan]
  rfl

theorem Shown.report_printed (printed : String) (log : List LogRecord) (logging : Logging)
    (unread : Nat) : ((Shown.text printed log).report logging unread).Wrote 0 printed
      (logging.writeAll log) := ⟨rfl, rfl, rfl⟩

/-- The error of a run is its only record and the message of its report. -/
theorem Shown.report_rejected (h : Flag.Compatible flags) (e : ParseError) (source? : Option String)
    (unread : Nat) :
    ((Shown.fault (.reading (.rejected e)) [e.record]).report
      (.configured (Options.severity ⟨source?, flags⟩)) unread).Wrote 1 ""
        (e.logLine flags ++ e.answerLine) := by
  have hmessage : (RunFault.reading (.rejected e)).message =
      "Line " ++ integerText e.line ++ ": " ++ e.message := rfl
  have hanswer : "[error] >>> " ++ (RunFault.reading (.rejected e)).message ++ "\n" =
      e.answerLine := by
    unfold ParseError.answerLine
    rw [hmessage]
    refine String.toList_injective ?_
    simp
  refine ⟨rfl, rfl, ?_⟩
  rw [← e.write_record h, ← Logging.writeAll_singleton, ← hanswer, ← String.append_assoc,
    ← String.append_assoc]
  rfl

variable (hshort : ∀ fs rest, Factors text.toList fs rest → ShortIntegers fs)
  (hcompatible : Flag.Compatible flags) (unread : Nat)

include hshort hcompatible

theorem allOrNothing_tokens (htokens : .tokens ∈ flags) (json : Bool) :
    AllOrNothing room flags text ((ShowRequest.showText ⟨text, true, json, true, room⟩ text).report
      (.configured (Options.severity ⟨some text, flags⟩)) unread) := by
  rw [ShowRequest.showText, if_pos rfl]
  rcases tokenize_or_rejected hshort with ⟨ts, hts⟩ | ⟨e, he⟩
  · obtain ⟨lines, hlines, hdump⟩ := dump_of_tokenize hts
    rw [hts]
    simp only [hdump]
    exact .tokens htokens hts hlines (Shown.report_printed _ [] _ _)
  · rw [he]
    have hline := onOneLine_rejected.mp (onOneLine_of_tokenize he)
    exact .error (by rwa [if_pos htokens]) hline (Shown.report_rejected hcompatible e _ _)

theorem allOrNothing_tree (htokens : .tokens ∉ flags) :
    AllOrNothing room flags text
      ((ShowRequest.showText ⟨text, true, decide (.json ∈ flags), false, room⟩ text).report
        (.configured (Options.severity ⟨some text, flags⟩)) unread) := by
  rw [ShowRequest.showText, if_neg Bool.false_ne_true]
  rcases parseText_or_rejected hshort room with ⟨line, ns, htree⟩ | ⟨e, he⟩
  · have houtcome : (parseText room text).outcome = .ok ⟨.program line ns⟩ := by rw [htree]
    obtain ⟨shown, hshown, hprint⟩ := exists_displayed houtcome flags
    rw [htree]
    simp only [hprint]
    refine .tree htokens houtcome hshown ?_
    have hwrote := Shown.report_printed (shown ++ "\n") [.parsed ns.length]
      (.configured (Options.severity ⟨some text, flags⟩)) unread
    rwa [Logging.writeAll_singleton, write_parsed] at hwrote
  · have houtcome : (parseText room text).outcome = .error (.rejected e) := by rw [he]
    have hline := onOneLine_rejected.mp (onOneLine_of_parseText houtcome)
    rw [he]
    exact .error (by rwa [if_neg htokens]) hline (Shown.report_rejected hcompatible e _ _)

end Printing

/-- A run that shows a text succeeds exactly where all of it was read. -/
theorem AllOrNothing.succeeds_iff {room : Nat} {flags : List Flag} {text : String} {r : RunReport}
    (h : AllOrNothing room flags text r) : r.ending = .returned (.int 0) ↔
      if .tokens ∈ flags then ∃ ts, tokenize text = .ok ts
      else ∃ tree, (parseText room text).outcome = .ok tree := by
  cases h with
  | tokens hasked hread hlines hwrote =>
    rw [if_pos hasked]
    exact ⟨fun _ => ⟨_, hread⟩, fun _ => hwrote.ending⟩
  | tree hasked hread hshown hwrote =>
    rw [if_neg hasked]
    exact ⟨fun _ => ⟨_, hread⟩, fun _ => hwrote.ending⟩
  | error hread hline hwrote =>
    constructor
    · intro hzero
      rw [hwrote.ending] at hzero
      cases hzero
    · intro hok
      split at hok
      · next hasked =>
        obtain ⟨ts, hts⟩ := hok
        rw [if_pos hasked, hts] at hread
        cases hread
      · next hasked =>
        obtain ⟨tree, htree⟩ := hok
        rw [if_neg hasked, htree] at hread
        cases hread

/-- A command line that asks for a text to be shown comes back with the text shown in full or with
one error. -/
theorem AsksToShow.allOrNothing {flags : List Flag} {text : String} {arguments : List String}
    (h : AsksToShow flags text arguments)
    (hshort : ∀ fs rest, Factors text.toList fs rest → ShortIntegers fs) (room : Nat)
    (events : List Event) (readFile : FileReader) :
    AllOrNothing (showRoom room) flags text (runCommand room arguments events readFile) := by
  rw [runCommand_eq h]
  by_cases htokens : Flag.tokens ∈ flags
  · rw [decide_eq_true htokens]
    exact allOrNothing_tokens hshort h.compatible _ htokens _
  · rw [decide_eq_false htokens]
    exact allOrNothing_tree hshort h.compatible _ htokens

/-- What a command line shows is a text in full or one error. It succeeds exactly where the text becomes tokens, if they were asked for, and otherwise
where it is parsed in the room that the command line leaves; up to the nesting that is sure to go well
this is where a parse in the place of the command line gives a tree. -/
theorem runCommand_all_or_nothing (room : Nat) (flags : List Flag) (text : String)
    (arguments : List String) (h : AsksToShow flags text arguments)
    (hshort : ∀ fs rest, Factors text.toList fs rest → ShortIntegers fs) (events : List Event)
    (readFile : FileReader) :
    AllOrNothing (showRoom room) flags text (runCommand room arguments events readFile) ∧
    ((runCommand room arguments events readFile).ending = .returned (.int 0) ↔
      if .tokens ∈ flags then ∃ ts, tokenize text = .ok ts
      else ∃ tree, (parseText (showRoom room) text).outcome = .ok tree) ∧
    (guaranteedRoom ≤ showRoom room → nesting (goodTokens text) ≤ guaranteedNesting →
      .tokens ∉ flags →
        ((runCommand room arguments events readFile).ending = .returned (.int 0) ↔
          ∃ tree, (parseText room text).outcome = .ok tree)) := by
  have hshown := h.allOrNothing hshort room events readFile
  refine ⟨hshown, hshown.succeeds_iff, fun hroom hnesting htokens => ?_⟩
  rw [hshown.succeeds_iff, if_neg htokens]
  have hroom' : guaranteedRoom ≤ room := Nat.le_trans hroom (Nat.sub_le room 1)
  exact exists_congr fun tree =>
    ⟨fun h => parseText_of_room hroom' hnesting h, fun h => parseText_of_room hroom hnesting h⟩

/-- A statement, and on the line below it a real literal without digits behind its point. -/
def lateFaultText : String := "x;\n1."

theorem parseText_lateFaultText : (parseText 39 lateFaultText).outcome =
    .error (.rejected (.lexical (.malformedReal ['1', '.']) 2)) := by
  have hpulls : (Cursor.start lateFaultText).pulls = [⟨.ok ⟨.ident, .text "x", 1, 1⟩, 1, 6⟩,
      ⟨.ok ⟨.semicolon, .text ";", 1, 2⟩, 1, 6⟩,
      ⟨.error (.rejected (.lexical (.malformedReal ['1', '.']) 2)), 2, 6⟩,
      ⟨.ok ⟨.endOfInput, .none, 2, 3⟩, 2, 5⟩] := by cbv
  unfold parseText TokenSource.ofText
  rw [hpulls]
  rfl

/-- Of the good statement nothing is printed. -/
theorem lateFaultText_refused :
    AsksToShow [.json, .literal] lateFaultText ["--json", "-s", "--", lateFaultText] ∧
    (∀ fs rest, Factors lateFaultText.toList fs rest → ShortIntegers fs) ∧
    ∀ events readFile,
      (runCommand 40 ["--json", "-s", "--", lateFaultText] events readFile).Wrote 1 ""
        ("[ERROR] mfl.mfl_lexer: Lexical error on line 2: Malformed real literal '1.'\n" ++
          "[error] >>> Line 2: Malformed real literal '1.'\n") := by
  have hasks : AsksToShow [.json, .literal] lateFaultText ["--json", "-s", "--", lateFaultText] := by
    refine ⟨⟨["--json", "-s"], rfl, ?_⟩, by decide, by decide, ⟨by decide, by decide⟩⟩
    exact .cons (.inr rfl) (.cons (.inl ⟨'s', rfl, rfl⟩) .nil)
  have hshort : ∀ fs rest, Factors lateFaultText.toList fs rest → ShortIntegers fs := by
    intro fs rest hfs f hf _
    exact Nat.le_trans (hfs.length_le f hf) (by decide)
  have houtcome : (parseText (showRoom 40) lateFaultText).outcome = _ := parseText_lateFaultText
  refine ⟨hasks, hshort, fun events readFile => ?_⟩
  obtain ⟨hshown, -⟩ := runCommand_all_or_nothing 40 _ _ _ hasks hshort events readFile
  cases hshown with
  | tokens hasked => exact absurd hasked (by decide)
  | tree hasked hread =>
    rw [houtcome] at hread
    cases hread
  | error hread hline hwrote =>
    rw [if_neg (by decide), houtcome] at hread
    injection hread with hread
    injection hread with hread
    subst hread
    exact hwrote

/-! ## Exceptions -/

theorem realText_length (whole fraction : List Char) :
    (realText whole fraction).toList.length = whole.length + fraction.length + 2 := by
  simp [realText]
  omega

theorem nestedText_length (n : Nat) (gap : List Char) :
    (nestedText n gap).toList.length = 2 * n + gap.length + 2 := by
  simp [nestedText]
  omega

theorem shortIntegers_of_length {text : String} (h : text.toList.length ≤ maxIntegerDigits) :
    ∀ fs rest, Factors text.toList fs rest → ShortIntegers fs :=
  fun _ _ hfs f hf _ => Nat.le_trans (hfs.length_le f hf) h

/-- A literal that is an infinite number is shown as text that is not JSON, and parentheses that take
up the stack are refused though a parse in the place of the command line reads them. -/
theorem runCommand_exceptions :
    ((runCommand 700 ["--json", "-s", "--", overflowText] [] fun _ => .ok []).ending =
        .returned (.int 0) ∧
      ¬ IsJson (runCommand 700 ["--json", "-s", "--", overflowText] [] fun _ => .ok []).stdout) ∧
    (parseText 628 (nestedText 123 [' '])).outcome.isOk = true ∧
    (runCommand 628 ["-s", "--", nestedText 123 [' ']] [] fun _ => .ok []).ending =
      .returned (.int 1) := by
  refine ⟨?_, nestedText_read, ?_⟩
  · have hasks : AsksToShow [.json, .literal] overflowText ["--json", "-s", "--", overflowText] := by
      refine ⟨⟨["--json", "-s"], rfl, ?_⟩, by decide, by decide, ⟨by decide, by decide⟩⟩
      exact .cons (.inr rfl) (.cons (.inl ⟨'s', rfl, rfl⟩) .nil)
    have hlength : overflowText.toList.length ≤ maxIntegerDigits := by
      rw [overflowText, realText_length, List.length_cons, List.length_replicate]
      decide
    have houtcome : (parseText (showRoom 700) overflowText).outcome = .ok (realTree .infinity) :=
      parse_overflowText (by decide)
    have hshown := hasks.allOrNothing (shortIntegers_of_length hlength) 700 [] fun _ => .ok []
    cases hshown with
    | tokens hasked => exact absurd hasked (by decide)
    | tree _ hread hdisplayed hwrote =>
      rw [houtcome] at hread
      injection hread with htree
      injection htree with hroot
      rw [Node.DisplayedAs, if_pos (by decide), ← hroot] at hdisplayed
      obtain ⟨d, hrecord, rfl, -⟩ := hdisplayed
      have hdocument := (printed_of_parse houtcome).1.symm.trans hrecord
      injection hdocument with hdocument
      refine ⟨hwrote.ending, ?_⟩
      rw [hwrote.stdout, ← hdocument]
      exact infinity_not_json
    | error hread =>
      rw [if_neg (by decide), houtcome] at hread
      cases hread
  · have hasks : AsksToShow [.literal] (nestedText 123 [' ']) ["-s", "--", nestedText 123 [' ']] :=
      ⟨⟨["-s"], rfl, .cons (.inl ⟨'s', rfl, rfl⟩) .nil⟩, by decide, by decide, ⟨by decide, by decide⟩⟩
    have hlength : (nestedText 123 [' ']).toList.length ≤ maxIntegerDigits := by
      rw [nestedText_length]
      decide
    have houtcome : (parseText (showRoom 628) (nestedText 123 [' '])).outcome.isOk = false := by
      decide +kernel
    have hshown := hasks.allOrNothing (shortIntegers_of_length hlength) 628 [] fun _ => .ok []
    cases hshown with
    | tokens hasked => exact absurd hasked (by decide)
    | tree _ hread =>
      rw [hread] at houtcome
      cases houtcome
    | error _ _ hwrote => exact hwrote.ending

end MflFrontend
