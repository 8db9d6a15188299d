import MflFrontend.Proofs.Grammar.Failures
import MflFrontend.Proofs.Grammar.Laws

/-!
# The log of a parse

A parse leaves one record, which agrees with its outcome. The readers keep a law: a step that
succeeds leaves nothing, and one that fails leaves the records of its failure and no others. Only the
last step of a whole parse adds a record of its own, and it does not fail behind it.

That record counts the statements of the tree. There are as many of them as there are semicolons
before the sentinel, since no phrase of the grammar contains one.

The lines of listed tokens may be any integers. An error on a line that cannot be written does not come
about, and its record, which was handed to the log before, is given up there.
-/

namespace MflFrontend

namespace Parse

/-- What succeeds leaves nothing, and what fails leaves the records of its failure. -/
def Law.recording : Law where
  good s s' := s'.log = s.log
  bad s failure s' := s'.log = s.log ++ failure.records
  refl _ := rfl
  trans h h' := h'.trans h
  trans_bad h h' := by rw [h', h]

instance recording_current : Obeys .recording current := by
  constructor
  intro s
  cases hcurrent : s.source.current? with
  | some t => exact Yields.of_ok (current_of_current? hcurrent) rfl
  | none => exact Yields.of_error (current_of_none hcurrent) (List.append_nil s.log).symm

instance recording_primitive : Law.recording.Primitive where
  current := recording_current
  skip := by
    constructor
    intro s
    cases hpull : s.source.pull.outcome with
    | ok t => exact Yields.of_ok (skip_of_ok hpull) rfl
    | error failure => exact Yields.of_error (skip_of_error hpull) rfl
  reject complaint _ := by
    constructor
    intro s
    cases hcurrent : s.source.current? with
    | some t => exact Yields.of_error (reject_of_current? hcurrent complaint) rfl
    | none => exact Yields.of_error (reject_of_none hcurrent complaint) (List.append_nil s.log).symm

/-- A whole parse leaves the records of its failure, or a note of its own behind which nothing can
fail. -/
theorem wholeProgram_records (d : Nat) (s : ParseState) :
    (wholeProgram d).Yields s
      (fun tree s' => ∃ line ns, tree = ⟨.program line ns⟩ ∧
        s'.log = s.log ++ [.parsed ns.length])
      (fun failure s' => s'.log = s.log ++ failure.records) := by
  have hskip : Obeys .recording skip := inferInstance
  have hstatements : Obeys .recording (programStatements d) := inferInstance
  have hend : Obeys .recording (expect .endOfInput .endOfInput) := inferInstance
  refine Yields.bind (hskip.yields s) (fun _ _ h => h) fun _ s₁ h₁ => ?_
  have hline : currentLine s₁ = .ok s₁.source.currentLine s₁ := rfl
  refine Yields.step hline ?_
  refine Yields.bind (hstatements.yields s₁) (fun _ _ h => ?_) fun ns s₂ h₂ => ?_
  · exact Law.recording.trans_bad h₁ h
  have h₁₂ : Law.recording.good s s₂ := Law.recording.trans h₁ h₂
  refine Yields.bind (hend.yields s₂) (fun _ _ h => ?_) fun _ s₃ h₃ => ?_
  · exact Law.recording.trans_bad h₁₂ h
  have h₁₃ : s₃.log = s.log := Law.recording.trans h₁₂ h₃
  refine Yields.of_ok (u := { s₃ with log := s₃.log ++ [.parsed ns.length] }) rfl ⟨_, ns, rfl, ?_⟩
  rw [h₁₃]

end Parse

/-- The report of a parse is a tree and the note of it, or a failure and its records. -/
theorem parseSource_eq (room : Nat) (source : TokenSource) :
    (∃ line ns, parseSource room source = ⟨.ok ⟨.program line ns⟩, [.parsed ns.length]⟩) ∨
      ∃ failure, parseSource room source = ⟨.error failure, failure.records⟩ := by
  have hrecords := Parse.wholeProgram_records (factorRoom room) { source }
  cases hrun : Parse.wholeProgram (factorRoom room) { source } with
  | ok tree s =>
    obtain ⟨line, ns, rfl, hlog⟩ := hrecords.good_of_ok hrun
    exact .inl ⟨line, ns, by rw [parseSource_of_ok hrun, hlog, List.nil_append]⟩
  | error failure s =>
    have hlog := hrecords.bad_of_error hrun
    exact .inr ⟨failure, by rw [parseSource_of_error hrun, hlog, List.nil_append]⟩

/-- The record of an error says what the error says. -/
theorem ParseError.record_describes (e : ParseError) :
    e.record.severity = .error ∧
    (e.token? = none → e.record.channel = "mfl.mfl_lexer" ∧
      e.record.message = "Lexical error on line " ++ integerText e.line ++ ": " ++ e.message) ∧
    ∀ t, e.token? = some t → e.record.channel = "mfl.mfl_parser" ∧
      e.record.message = "Parse error on line " ++ integerText e.line ++ ": " ++ e.message := by
  cases e with
  | lexical fault line => exact ⟨rfl, fun _ => ⟨rfl, rfl⟩, nofun⟩
  | unexpected complaint found line => exact ⟨rfl, nofun, fun _ _ => ⟨rfl, rfl⟩⟩

end MflFrontend
