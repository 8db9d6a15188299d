import MflFrontend.Command.Run
import MflFrontend.Proofs.Grammar.Printing
import MflFrontend.Proofs.Grammar.Statements
import MflFrontend.Proofs.Json.Writing
import MflFrontend.Proofs.Node.Record

/-!
# Programs printed as JSON

A run and a session print the tree of a text as JSON in the same way. What they print follows the
grammar of JSON if and only if no literal of the program is an infinite number, and then it says the
record of the tree and nothing else. A real literal beyond the range of doubles is an infinite
number, and is printed by a name that JSON does not have.
-/

namespace MflFrontend

/-! ## Infinite numbers in trees -/

/-- The token carries an infinite number. -/
def Token.IsInfinite (t : Token) : Prop := ∃ x, t.value = .real x ∧ x.isInfinite = true

namespace Document

@[simp] theorem hasInfinity_value {v : Value} :
    (value v).HasInfinity ↔ ∃ x, v = .real x ∧ x.isInfinite = true := by
  constructor
  · intro h
    cases h with
    | here hx => exact ⟨_, rfl, hx⟩
  · rintro ⟨x, rfl, hx⟩
    exact .here hx

@[simp] theorem hasInfinity_list {items : List Document} :
    (list items).HasInfinity ↔ ∃ d ∈ items, d.HasInfinity := by
  constructor
  · intro h
    cases h with
    | item hd h => exact ⟨_, hd, h⟩
  · rintro ⟨d, hd, h⟩
    exact .item hd h

@[simp] theorem hasInfinity_record {fields : List (String × Document)} :
    (record fields).HasInfinity ↔ ∃ f ∈ fields, f.2.HasInfinity := by
  constructor
  · intro h
    cases h with
    | field hf h => exact ⟨_, hf, h⟩
  · rintro ⟨f, hf, h⟩
    exact .field hf h

end Document

namespace Node

/-- A token of the tree carries an infinite number. -/
def HasInfinity (n : Node) : Prop :=
  ∃ m : Node, m.Occurs n ∧ ∃ t, m.own = .ok (.token t) ∧ t.IsInfinite

theorem hasInfinity_iff {n : Node} : n.HasInfinity ↔
    (∃ t, n.own = .ok (.token t) ∧ t.IsInfinite) ∨ ∃ m ∈ n.children, m.HasInfinity := by
  constructor
  · rintro ⟨m, hm, h⟩
    cases hm with
    | self => exact .inl h
    | inside hc hm => exact .inr ⟨_, hc, m, hm, h⟩
  · rintro (h | ⟨c, hc, m, hm, h⟩)
    · exact ⟨n, .self, h⟩
    · exact ⟨m, .inside hc hm, h⟩

/-- The record of a tree holds the infinite numbers of its tokens, and no others. -/
theorem document_hasInfinity_iff (n : Node) : n.document.HasInfinity ↔ n.HasInfinity := by
  induction n using inductionOnChildren with
  | step n ih =>
    rw [hasInfinity_iff]
    have hchildren : (∃ m ∈ n.children, m.HasInfinity) ↔
        ∃ m ∈ n.children, m.document.HasInfinity :=
      exists_congr fun m => and_congr_right fun hm => (ih m hm).symm
    rw [hchildren]
    cases n <;> simp [document, documents_eq_map, children, own, Token.IsInfinite]

/-- A part of a program is no stray. -/
theorem IsPart.not_stray {n : Node} (h : n.IsPart) (name : String) : n.variant ≠ .stray name := by
  rcases h with ⟨_, _⟩ | ⟨hn⟩ | ⟨_, _⟩
  · exact nofun
  · cases hn <;> exact nofun
  · exact nofun

theorem IsPart.strayFree {n : Node} (h : n.IsPart) : n.StrayFree := by
  induction n using inductionOnChildren with
  | step n ih => exact .of_children h.not_stray fun m hm => ih m hm (h.children m hm)

end Node

/-! ## What is printed -/

/-- What a run prints of a text as JSON. -/
def shownJson (room : Nat) (text : String) (readFile : FileReader) : String :=
  (runShow { source := text, literal := true, json := true, room } readFile).stdout

/-- What a session prints of a chunk as JSON. -/
def answeredJson (room : Nat) (text : String) (verbose : Bool) : String :=
  (runChunk { json := true, verbose, room } text).stdout

theorem print_json {tree : SyntaxTree} (h : tree.root.StrayFree) :
    tree.print true = tree.root.document.json ++ "\n" := by
  unfold SyntaxTree.print
  rw [if_pos rfl, h.record]
  rfl

/-- A text that is a program is printed as the line of its record, by a run and by a session. -/
theorem printed_of_parse {room : Nat} {text : String} {tree : SyntaxTree}
    (h : (parseText room text).outcome = .ok tree) : tree.root.record = .ok tree.root.document ∧
    (∀ readFile, shownJson room text readFile = tree.root.document.json ++ "\n") ∧
    ∀ verbose, answeredJson room text verbose = tree.root.document.json ++ "\n" := by
  have hfree : tree.root.StrayFree := Node.IsPart.strayFree (.inl (parseSource_wellShaped h))
  have hprint := print_json hfree
  refine ⟨hfree.record, fun readFile => ?_, fun verbose => ?_⟩
  · simp only [shownJson, runShow, ShowRequest.run, ShowRequest.sourceText, ShowRequest.showText]
    simp [h, hprint, Shown.text]
  · simp [answeredJson, runChunk, answerChunk, h, hprint]

/-- The room of a parse does not tell which tree a text becomes. -/
theorem tree_unique {room room' : Nat} {text : String} {tree tree' : SyntaxTree}
    (h : (parseText room text).outcome = .ok tree) (h' : (parseText room' text).outcome = .ok tree') :
    tree = tree' := by
  obtain ⟨ts, hts, hparse⟩ := tokenize_of_parseText h
  obtain ⟨ts', hts', hparse'⟩ := tokenize_of_parseText h'
  rw [hts] at hts'
  injection hts' with hsame
  subst hsame
  exact (derives_of_parseTokens hparse).unique (derives_of_parseTokens hparse')

/-- What is printed of a program as JSON, in any room in which it is read, follows the grammar of JSON
if and only if no token of its tree carries an infinite number; and then it says the record of the
tree and nothing else. -/
theorem printed_json (room : Nat) (text : String) (tree : SyntaxTree)
    (h : (parseText room text).outcome = .ok tree) :
    ∃ d printed, tree.root.record = .ok d ∧
      (∀ room' tree', (parseText room' text).outcome = .ok tree' →
        (∀ readFile, shownJson room' text readFile = printed) ∧
          ∀ verbose, answeredJson room' text verbose = printed) ∧
      (IsJson printed ↔ ¬ tree.root.HasInfinity) ∧
      ∀ e, Says printed e ↔ e = d ∧ ¬ tree.root.HasInfinity := by
  obtain ⟨hgrammar, hmeaning⟩ := tree.root.document.json_line
  rw [tree.root.document_hasInfinity_iff] at hgrammar hmeaning
  refine ⟨_, _, (printed_of_parse h).1, fun room' tree' h' => ?_, hgrammar, hmeaning⟩
  rw [tree_unique h h']
  exact (printed_of_parse h').2

/-! ## One real literal -/

/-- The text of a statement that is one real literal. -/
def realText (whole fraction : List Char) : String :=
  String.ofList (whole ++ '.' :: fraction ++ [';'])

/-- The tree of a program that is one real literal at the beginning of the text. -/
def realTree (x : Double) : SyntaxTree := ⟨.program 1 [.leaf 1 ⟨.realLit, .real x, 1, 1⟩]⟩

/-- One real literal is a program. -/
theorem parse_realText {room : Nat} (hroom : guaranteedRoom ≤ room) {whole fraction : List Char}
    (hwhole : IsDigits whole) (hfraction : IsDigits fraction) :
    (parseText room (realText whole fraction)).outcome =
      .ok (realTree (.nearest (ofDecimalDigits (whole ++ fraction)) (pow10 fraction.length))) := by
  have hreal : IsReal (whole ++ '.' :: fraction) := ⟨whole, fraction, hwhole, hfraction, rfl⟩
  have hsemicolon : ([';'], TokenKind.semicolon) ∈ TokenKind.signs := by decide
  have hseparated : Separated (whole ++ '.' :: fraction) [';'] := by
    obtain ⟨c, cs, rfl⟩ := List.exists_cons_of_ne_nil hwhole.1
    exact separated_number (hwhole.2 c List.mem_cons_self) fun a ha =>
      Option.some.inj ha ▸ ⟨rfl, by decide⟩
  have hend : Separated [';'] [] := ⟨fun _ => nofun, fun _ => nofun, fun _ => nofun⟩
  have hfactors : Factors (realText whole fraction).toList
      [⟨[], whole ++ '.' :: fraction⟩, ⟨[], [';']⟩] [] := by
    rw [realText, String.toList_ofList]
    exact .cons .nil (.real hreal) hseparated (.cons .nil (.sign hsemicolon) hend .nil)
  have hshort : ShortIntegers [⟨[], whole ++ '.' :: fraction⟩, ⟨[], [';']⟩] := by
    intro f hf hdigits
    rcases List.mem_pair.mp hf with rfl | rfl
    · exact absurd (hdigits.2 '.' (by simp)) (by decide)
    · exact absurd (hdigits.2 ';' (by simp)) (by decide)
  have htokens := hfactors.tokenize_ok .nil hshort
    (.cons (.real hreal (Double.ofText?_real hwhole hfraction)) (.cons (.sign hsemicolon) .nil))
  have hparse : ∀ {r s e : Token}, r.kind = .realLit → s.kind = .semicolon →
      tokenize (realText whole fraction) = .ok [r, s, e] →
      (parseText room (realText whole fraction)).outcome =
        .ok ⟨.program r.line [.leaf r.line r]⟩ := by
    intro r s e hr hs htokens
    have hliteral : r.kind ∈ TokenKind.literals := by
      rw [hr]
      decide
    have hstatement : Derives .statement [r] (.leaf r.line r) := .bare <| .single <| .uncompared <|
      .single <| .single <| .plain <| .literal hliteral
    have hprogram : DerivesProgram [r, s] ⟨.program r.line [.leaf r.line r]⟩ :=
      ⟨r, _, rfl, List.cons_ne_nil _ _, .cons hstatement hs .nil, rfl⟩
    have hnesting : nesting [r, s] = 0 := by simp [nesting, hr, hs]
    exact parseText_of_derives hroom ⟨e, htokens⟩ hprogram (hnesting ▸ Nat.zero_le _)
  exact hparse rfl rfl htokens

/-- The lines that `0.5;` is printed as. -/
def halfLines : String :=
  "\x7b\n  \"kind\": \"prog\",\n  \"line\": 1,\n  \"statements\": [\n    \x7b\n" ++
  "      \"kind\": \"token\",\n      \"line\": 1,\n      \"token_type\": \"REAL\",\n" ++
  "      \"value\": 0.5\n    \x7d\n  ]\n\x7d\n"

/-- The program `0.5;` is printed as these lines, which say its record and nothing else. -/
theorem half_printed :
    (parseText guaranteedRoom (realText ['0'] ['5'])).outcome = .ok (realTree (.nearest 5 10)) ∧
    (∀ readFile, shownJson guaranteedRoom (realText ['0'] ['5']) readFile = halfLines) ∧
    (∀ verbose, answeredJson guaranteedRoom (realText ['0'] ['5']) verbose = halfLines) ∧
    IsJson halfLines ∧ ∀ e, Says halfLines e ↔ e = .record [("kind", .value (.text "prog")),
      ("line", .value (.int 1)), ("statements", .list [.record [("kind", .value (.text "token")),
        ("line", .value (.int 1)), ("token_type", .value (.text "REAL")),
        ("value", .value (.real (.nearest 5 10)))]])] := by
  have hdigit : ∀ c : Char, c.isDigit = true → IsDigits [c] := fun c hc =>
    ⟨List.cons_ne_nil _ _, List.forall_mem_singleton.mpr hc⟩
  have hparse : (parseText guaranteedRoom (realText ['0'] ['5'])).outcome =
      .ok (realTree (.nearest 5 10)) :=
    parse_realText (Nat.le_refl _) (hdigit '0' rfl) (hdigit '5' rfl)
  have hfinite : ¬ (realTree (.nearest 5 10)).root.HasInfinity := by
    have hhalf : (Double.nearest 5 10).isInfinite = false := by decide +kernel
    rw [← Node.document_hasInfinity_iff]
    simp [realTree, Node.document, Node.documents, hhalf]
  have hlines : (realTree (.nearest 5 10)).root.document.json ++ "\n" = halfLines := by
    decide +kernel
  obtain ⟨d, printed, hrecord, hall, hgrammar, hmeaning⟩ := printed_json _ _ _ hparse
  obtain ⟨hshown, hanswered⟩ := hall guaranteedRoom _ hparse
  obtain ⟨hrecord', -, hanswered'⟩ := printed_of_parse hparse
  rw [hrecord'] at hrecord
  cases hrecord
  rw [hlines] at hanswered'
  obtain rfl : printed = halfLines := (hanswered false).symm.trans (hanswered' false)
  refine ⟨hparse, hshown, hanswered, hgrammar.mpr hfinite, fun e => ?_⟩
  rw [hmeaning, and_iff_left hfinite]
  rfl

/-! ## Beyond the range of doubles -/

/-- One statement, the real number `10 ^ 309`. -/
def overflowText : String := realText ('1' :: List.replicate 309 '0') ['0']

/-- The number is infinite. -/
theorem overflow_infinite :
    Double.nearest (ofDecimalDigits ('1' :: List.replicate 309 '0' ++ ['0'])) (pow10 1) =
      .infinity := by
  refine Double.nearest_eq_infinity (Double.pow10_pos 1) ?_
  have hone : ofDecimalDigits ['1'] = 1 := rfl
  have hvalue : ofDecimalDigits ('1' :: List.replicate 309 '0' ++ ['0']) = pow10 310 := by
    rw [List.cons_append, ← List.replicate_succ', ← List.singleton_append,
      ofDecimalDigits_append_zeros, hone, Nat.one_mul]
  rw [hvalue]
  decide +kernel

/-- The number `10 ^ 309` is a program. -/
theorem parse_overflowText {room : Nat} (hroom : guaranteedRoom ≤ room) :
    (parseText room overflowText).outcome = .ok (realTree .infinity) := by
  have hwhole : IsDigits ('1' :: List.replicate 309 '0') := by
    refine ⟨List.cons_ne_nil _ _, List.forall_mem_cons.mpr ⟨rfl, fun c hc => ?_⟩⟩
    rw [List.eq_of_mem_replicate hc]
    rfl
  have hfraction : IsDigits ['0'] := ⟨List.cons_ne_nil _ _, by simp⟩
  have hparse := parse_realText hroom hwhole hfraction
  rwa [List.length_singleton, overflow_infinite] at hparse

/-- Its record as JSON does not follow the grammar of JSON. -/
theorem infinity_not_json : ¬ IsJson ((realTree .infinity).root.document.json ++ "\n") := by
  rw [(Document.json_line _).1, not_not, Node.document_hasInfinity_iff]
  exact ⟨_, .inside (List.mem_singleton_self _) .self, _, rfl, _, rfl, by decide⟩

/-- The number `10 ^ 309` is a program, but what is printed of it as JSON does not follow the
grammar of JSON. -/
theorem overflowText_not_json :
    (∃ tree, (parseText guaranteedRoom overflowText).outcome = .ok tree) ∧
    (∀ readFile, ¬ IsJson (shownJson guaranteedRoom overflowText readFile)) ∧
    ∀ verbose, ¬ IsJson (answeredJson guaranteedRoom overflowText verbose) := by
  have hparse := parse_overflowText (Nat.le_refl _)
  obtain ⟨-, hshown, hanswered⟩ := printed_of_parse hparse
  refine ⟨⟨_, hparse⟩, fun readFile => ?_, fun verbose => ?_⟩
  · rw [hshown]
    exact infinity_not_json
  · rw [hanswered]
    exact infinity_not_json

end MflFrontend
