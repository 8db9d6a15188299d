import MflFrontend.Proofs.Grammar.Interleaving
import MflFrontend.Proofs.Grammar.Kinds
import MflFrontend.Proofs.Lexing.Respacing
import MflFrontend.Proofs.Node.Layout

/-!
# Programs that differ in trivia

No decision of a parse depends on where a token stands. Texts that differ in trivia therefore become
trees of one shape with the same operators, names and literals, which look the same when they are
laid out, or are rejected in the same words.

That is so as long as parentheses leave room. Passing a comment takes one frame more than passing
blanks, so where the stack is all but used up, trivia decide whether there is a tree.
-/

namespace MflFrontend

/-! ## Trees that can be laid out -/

/-- A leaf whose token can be written can be laid out. -/
theorem Node.exists_rows_leaf {t : Token} (ht : t.IsWritable) (line k : Int) :
    ∃ ls, (Node.leaf line t).rows k = .ok ls := by
  have hheading : (Node.leaf line t).heading = .ok (.single t.display) := if_pos ht
  exact Node.exists_rows hheading (by simp [Node.children]) k

/-- The tree of a phrase can be laid out if its tokens can be written. -/
theorem Derives.exists_rows {p : Phrase} {w : List Token} {n : Node} (h : Derives p w n)
    (hw : ∀ t ∈ w, t.IsWritable) (k : Int) : ∃ ls, n.rows k = .ok ls := by
  induction h generalizing k with
  | @literal t _ => exact Node.exists_rows_leaf (hw t (by simp)) t.line k
  | parenthesis _ _ _ ih => exact ih (fun t ht => hw t (by simp [ht])) k
  | plain _ ih => exact ih hw k
  | negated _ _ ih =>
    have hfactor := ih fun t ht => hw t (by simp [ht])
    exact Node.exists_rows rfl (by simpa [Node.children] using hfactor) k
  | single _ ih => exact ih hw k
  | joined _ _ _ ihv ihw =>
    have hleft := ihv fun t ht => hw t (by simp [ht])
    have hright := ihw fun t ht => hw t (by simp [ht])
    exact Node.exists_rows rfl (by simpa [Node.children] using ⟨hleft, hright⟩) k
  | uncompared _ ih => exact ih hw k
  | compared _ _ _ ihv ihw =>
    have hleft := ihv fun t ht => hw t (by simp [ht])
    have hright := ihw fun t ht => hw t (by simp [ht])
    exact Node.exists_rows rfl (by simpa [Node.children] using ⟨hleft, hright⟩) k
  | bare _ ih => exact ih hw k
  | @binding _ x _ _ _ _ _ _ _ ih =>
    have hname := Node.exists_rows_leaf (hw x (by simp)) x.line
    have hbound := ih fun t ht => hw t (by simp [ht])
    exact Node.exists_rows rfl (by simpa [Node.children] using ⟨hname, hbound⟩) k

theorem DerivesAll.exists_statementLines {w : List Token} {ns : List Node} (h : DerivesAll w ns)
    (hw : ∀ t ∈ w, t.IsWritable) : ∃ inner, Node.statementLines ns = .ok inner := by
  refine Node.exists_layout fun n hn => ?_
  induction h with
  | nil => cases hn
  | cons hv _ _ ih =>
    rcases List.mem_cons.mp hn with rfl | hn
    · exact hv.exists_rows (fun t ht => hw t (by simp [ht])) indentStep
    · exact ih (fun t ht => hw t (by simp [ht])) hn

/-- Whatever is read from a text can be written. -/
theorem isWritable_of_tokenize {text : String} {ts : List Token} (h : tokenize text = .ok ts) :
    ∀ t ∈ ts, t.IsWritable :=
  Cursor.isWritable_of_brings (List.append_nil _).symm ((Pull.tokens_eq_ok_iff _ _).mp h)

/-- The tree of a text can be laid out. -/
theorem exists_inner_of_parseText {room : Nat} {text : String} {tree : SyntaxTree}
    (h : (parseText room text).outcome = .ok tree) : ∃ inner, tree.HasInner inner := by
  obtain ⟨ts, hts, hparse⟩ := tokenize_of_parseText h
  obtain ⟨first, ns, -, -, hall, rfl⟩ := derives_of_parseTokens hparse
  obtain ⟨inner, hinner⟩ := hall.exists_statementLines fun t ht =>
    isWritable_of_tokenize hts t ((List.takeWhile_sublist _).subset ht)
  exact ⟨inner, hasInner_program hinner first.line⟩

/-- A tree whose lines are known is rendered as these lines. -/
theorem SyntaxTree.HasInner.render {tree : SyntaxTree} {inner : List String}
    (h : tree.HasInner inner) :
    tree.root.render 0 = .ok ("\n".intercalate ("Prog(" :: (inner ++ [")"]))) := by
  unfold Node.render
  rw [h]
  rfl

/-! ## Trees that differ in places -/

theorem Token.Alike.display {t t' : Token} (h : t.Alike t') : t.display = t'.display := by
  unfold Token.display
  rw [h.kind, h.value]

/-- Nodes that differ in places alone look the same. -/
theorem Node.RelatedBy.rows {n n' : Node} (h : Node.RelatedBy Token.Alike n n') (k : Int) :
    n.rows k = n'.rows k := by
  induction h generalizing k with
  | leaf _ ht =>
    refine Node.rows_congr ?_ .nil k
    simp only [Node.heading, ht.display, ht.isWritable_iff]
  | unary op _ _ ih =>
    refine Node.rows_congr ?_ (.cons ih .nil) k
    rfl
  | binary op _ _ _ iha ihb =>
    refine Node.rows_congr ?_ (.cons iha (.cons ihb .nil)) k
    rfl
  | relation op _ _ _ iha ihb =>
    refine Node.rows_congr ?_ (.cons iha (.cons ihb .nil)) k
    rfl

theorem SyntaxTree.RelatedBy.render {tree tree' : SyntaxTree}
    (h : SyntaxTree.RelatedBy Token.Alike tree tree') (k : Int) :
    tree.root.render k = tree'.root.render k := by
  obtain ⟨l, l', ns, ns', rfl, rfl, -, hns⟩ := h
  have hrows : Node.rows (.program l ns) k = Node.rows (.program l' ns') k := by
    refine Node.rows_congr ?_ ?_ k
    · rfl
    · exact hns.imp fun _ _ => Node.RelatedBy.rows
  unfold Node.render Node.lines
  rw [hrows]

/-! ## Runs -/

/-- Complaints of tokens that differ in places, in the same words, have the same text. -/
theorem Token.Alike.sameText {t t' : Token} (h : t.Alike t') (ht : t.IsDescribable)
    (complaint : Complaint) : Failure.SameText (complaint.about t) (complaint.about t') := by
  rw [complaint.about_of_describable ht, complaint.about_of_describable (h.isDescribable_iff.mp ht)]
  refine .rejected ?_
  simp only [ParseError.message, h.describeFound]

theorem kinds_of_alike {ts ts' : List Token} (h : List.Forall₂ Token.Alike ts ts') :
    ts.map Token.kind = ts'.map Token.kind := by
  induction h with
  | nil => rfl
  | cons ht _ ih => rw [List.map_cons, List.map_cons, ht.kind, ih]

/-- Parses of describable tokens that differ in places come to trees that look the same, or to
failures with the same text, where as much is to come. -/
theorem Parse.wholeProgram_by_places (d : Nat) {ts ts' : List Token}
    (h : List.Forall₂ Token.Alike (closeTokens ts) (closeTokens ts'))
    (hts : ∀ t ∈ ts, t.IsDescribable) :
    (∃ tree tree' s s', wholeProgram d (startOf ts) = .ok tree s ∧
      wholeProgram d (startOf ts') = .ok tree' s' ∧
      SyntaxTree.RelatedBy Token.Alike tree tree') ∨
    ∃ f f' s s', wholeProgram d (startOf ts) = .error f s ∧
      wholeProgram d (startOf ts') = .error f' s' ∧ Failure.SameText f f' ∧
      s.source.ahead.length = s'.source.ahead.length := by
  rcases wholeProgram_listed Token.Alike.kind d h with
    hok | ⟨complaint, t, t', s, s', hrun, hrun', ht, hlength⟩
  · exact .inl hok
  · have hclosed : ∀ t ∈ closeTokens ts, t.IsDescribable := fun t ht =>
      (mem_closeTokens ht).elim (hts t) .inl
    obtain ⟨_, _, hrejected, -⟩ := wholeProgram_rejects hclosed hrun
    obtain ⟨hdescribable, -⟩ := Complaint.about_eq_rejected hrejected
    exact .inr ⟨_, _, s, s', hrun, hrun', ht.sameText hdescribable complaint, hlength⟩

/-- What a parse of describable tokens rejects, a parse of tokens that differ in places rejects with
the same text. -/
theorem RejectsOneOf.by_places {room : Nat} {ts ts' : List Token} {f : Failure}
    (hf : RejectsOneOf room ts f) (h : List.Forall₂ Token.Alike ts ts')
    (hends : ∀ t ∈ ts, t.kind ≠ .endOfInput) (hts : ∀ t ∈ ts, t.IsDescribable) :
    ∃ f', RejectsOneOf room ts' f' ∧ Failure.SameText f f' := by
  have hends' : ∀ t ∈ ts', t.kind ≠ .endOfInput := fun t ht => by
    obtain ⟨a, ha, halike⟩ := exists_mem_of_forall₂ h ht
    exact halike.kind ▸ hends a ha
  have hts' : ∀ t ∈ ts', t.IsDescribable := fun t ht => by
    obtain ⟨a, ha, halike⟩ := exists_mem_of_forall₂ h ht
    exact halike.isDescribable_iff.mp (hts a ha)
  obtain ⟨line, hclosed⟩ := closeTokens_concat hends
  obtain ⟨line', hclosed'⟩ := closeTokens_concat hends'
  have hlisted : List.Forall₂ Token.Alike (closeTokens ts) (closeTokens ts') := by
    rw [hclosed, hclosed']
    exact List.rel_append h (.cons ⟨rfl, rfl⟩ .nil)
  have ⟨_, _, _, _, _, _, _, hrun, _⟩ := hf
  rcases Parse.wholeProgram_by_places (factorRoom room) hlisted hts with
    ⟨_, _, _, _, hrun₁, -⟩ | ⟨f₁, f', s₁, s', hrun₁, hrun', hsame, hlength⟩
  · rw [hrun] at hrun₁
    cases hrun₁
  · rw [hrun] at hrun₁
    injection hrun₁ with heq _
    subst heq
    have hahead := (Parse.rejectsOneOf_iff hends hts hrun).mp hf
    refine ⟨f', (Parse.rejectsOneOf_iff hends' hts' hrun').mpr fun hnil => hahead ?_, hsame⟩
    simp_all

/-- Two parses that come to trees that look the same, or fail with the same text. -/
inductive LookAlike : (r r' : Except Failure SyntaxTree) → Prop where
  /-- Both give a tree, which is rendered as the same text. -/
  | tree {tree tree' : SyntaxTree} {text : String} (h : tree.root.render 0 = .ok text)
      (h' : ∀ k, tree.root.render k = tree'.root.render k) : LookAlike (.ok tree) (.ok tree')
  /-- Both fail. -/
  | failure {f f' : Failure} (h : Failure.SameText f f') : LookAlike (.error f) (.error f')

section Respaced

variable {t t' : String} {room : Nat} (hroom : guaranteedRoom ≤ room)
  (hnesting : nesting (goodTokens t) ≤ guaranteedNesting)

include hroom hnesting

/-- Texts that become tokens that differ in places alone are parsed alike. -/
theorem parseText_of_alike {ts ts' : List Token} (hts : tokenize t = .ok ts)
    (hts' : tokenize t' = .ok ts') (h : List.Forall₂ Token.Alike ts ts') :
    LookAlike (parseText room t).outcome (parseText room t').outcome := by
  have hnesting' : nesting (goodTokens t') ≤ guaranteedNesting := by
    rwa [goodTokens_of_tokenize hts', ← nesting_kinds (kinds_of_alike h), ← goodTokens_of_tokenize hts]
  have hclosed : ∀ {text : String} {us : List Token}, tokenize text = .ok us → closeTokens us = us := by
    intro text us hus
    obtain ⟨_, _, rfl, -, he⟩ := Cursor.brings_pulls ((Pull.tokens_eq_ok_iff _ _).mp hus)
    exact closeTokens_of_end he
  have hlisted : List.Forall₂ Token.Alike (closeTokens ts) (closeTokens ts') := by
    rwa [hclosed hts, hclosed hts']
  have htext := parseText_of_tokenize hroom hnesting hts
  have htext' := parseText_of_tokenize hroom hnesting' hts'
  rcases Parse.wholeProgram_by_places (factorRoom room) hlisted (isDescribable_of_tokenize hts) with
    ⟨tree, tree', s, s', hrun, hrun', htree⟩ | ⟨f, f', s, s', hrun, hrun', hsame, -⟩
  · have hreport : parseSource room (.ofTokens ts) = ⟨.ok tree, s.log⟩ := parseSource_of_ok hrun
    have hreport' : parseSource room (.ofTokens ts') = ⟨.ok tree', s'.log⟩ := parseSource_of_ok hrun'
    rw [hreport] at htext
    rw [hreport'] at htext'
    obtain ⟨inner, hinner⟩ := exists_inner_of_parseText htext
    rw [htext, htext']
    exact .tree hinner.render htree.render
  · have hreport : parseSource room (.ofTokens ts) = ⟨.error f, s.log⟩ := parseSource_of_error hrun
    have hreport' : parseSource room (.ofTokens ts') = ⟨.error f', s'.log⟩ :=
      parseSource_of_error hrun'
    rw [htext, htext', hreport, hreport']
    exact .failure hsame

/-- Texts that fail with the same text, behind tokens that differ in places alone, are parsed alike. -/
theorem parseText_of_alike_failing {f f' : Failure} (hf : tokenize t = .error f)
    (hf' : tokenize t' = .error f') (hsame : Failure.SameText f f')
    (h : List.Forall₂ Token.Alike (goodTokens t) (goodTokens t')) :
    LookAlike (parseText room t).outcome (parseText room t').outcome := by
  have hnesting' : nesting (goodTokens t') ≤ guaranteedNesting := by
    rwa [← nesting_kinds (kinds_of_alike h)]
  obtain ⟨hrejects, hfails⟩ := parseText_of_failing hroom hnesting hf
  obtain ⟨hrejects', hfails'⟩ := parseText_of_failing hroom hnesting' hf'
  obtain ⟨-, -, -, -, -, -, hends, hdescribable⟩ := tokenize_error hf
  obtain ⟨-, -, -, -, -, -, hends', hdescribable'⟩ := tokenize_error hf'
  have h' : List.Forall₂ Token.Alike (goodTokens t') (goodTokens t) :=
    h.flip.imp fun _ _ halike => halike.symm
  -- whether a good token is rejected decides which of the two failures wins
  by_cases hsome : ∃ g, RejectsOneOf room (goodTokens t) g
  · obtain ⟨g, hg⟩ := hsome
    obtain ⟨g', hg', hsame'⟩ := hg.by_places h hends hdescribable
    rw [hrejects g hg, hrejects' g' hg']
    exact .failure hsame'
  · have hnone' : ¬ ∃ g', RejectsOneOf room (goodTokens t') g' := fun ⟨g', hg'⟩ => by
      obtain ⟨g, hg, -⟩ := hg'.by_places h' hends' hdescribable'
      exact hsome ⟨g, hg⟩
    rw [hfails hsome, hfails' hnone']
    exact .failure hsame

end Respaced

/-- Texts that differ in trivia become tokens that differ in places, or fail with the same text. Where
there is the room that a parse has at least, and parentheses nest no deeper than guaranteed, they also
become trees that look the same, or fail with the same text. -/
theorem parseText_respaced {t t' : String} (h : Respaced true t.toList t'.toList) :
    ((∃ ts ts', tokenize t = .ok ts ∧ tokenize t' = .ok ts' ∧ List.Forall₂ Token.Alike ts ts') ∨
      ∃ f f', tokenize t = .error f ∧ tokenize t' = .error f' ∧ Failure.SameText f f') ∧
    ∀ room, guaranteedRoom ≤ room → nesting (goodTokens t) ≤ guaranteedNesting →
      LookAlike (parseText room t).outcome (parseText room t').outcome := by
  rcases h.tokens with ⟨us, e, us', e', hts, hts', hus, he⟩ | ⟨f, f', hf, hf', hsame, hgood⟩
  · have halike : List.Forall₂ Token.Alike (us ++ [e]) (us' ++ [e']) :=
      List.rel_append hus (.cons he .nil)
    exact ⟨.inl ⟨_, _, hts, hts', halike⟩, fun room hroom hnesting =>
      parseText_of_alike hroom hnesting hts hts' halike⟩
  · exact ⟨.inr ⟨f, f', hf, hf', hsame⟩, fun room hroom hnesting =>
      parseText_of_alike_failing hroom hnesting hf hf' hsame hgood⟩

/-- A program without trivia. -/
def tightText : String := "x;"

/-- The program with trivia, a comment among them. -/
def looseText : String := "\tx#y\n;"

theorem trivia_comment_y {rest : List Char} : Trivia ['#', 'y', '\n'] rest := by
  have hbody : ∀ c ∈ ['y'], c ≠ '\n' := by simp
  exact .comment hbody (fun c hc => (Option.some.inj hc).symm) (.blank rfl .nil)

theorem tightText_respaced : Respaced true tightText.toList looseText.toList := by
  have hname : IsLexeme ['x'] := .word ⟨'x', [], rfl, by decide, by simp⟩
  have hsign : IsLexeme [';'] := .sign (k := .semicolon) (by decide)
  have hname_sep : Separated ['x'] [';'] :=
    separated_word (by decide) fun a ha => by
      cases ha
      rfl
  have hsign_sep : Separated [';'] [] := ⟨fun _ => nofun, fun _ => nofun, fun _ => nofun⟩
  have htail : Respaced false [';'] ['#', 'y', '\n', ';'] :=
    .factor (.nil : Trivia [] [';']) trivia_comment_y (.inr (.inr (by decide))) hsign hsign_sep
      (fun _ => by decide) (.stop .nil .nil)
  have hblank : Trivia ['\t'] ['x', '#', 'y', '\n', ';'] := .blank rfl .nil
  exact .factor (.nil : Trivia [] ['x', ';']) hblank (.inl rfl) hname hname_sep (fun _ => by decide) htail

set_option maxRecDepth 100000 in
/-- The loose sample differs from the tight one in trivia, and its tree looks the same. -/
theorem sampleTexts_respaced : Respaced true tightText.toList looseText.toList ∧
    guaranteedRoom ≤ 700 ∧ nesting (goodTokens tightText) ≤ guaranteedNesting ∧
    ∃ tree tree', (parseText 700 tightText).outcome = .ok tree ∧
      (parseText 700 looseText).outcome = .ok tree' ∧ tree.root.render 0 = tree'.root.render 0 := by
  have hnesting : nesting (goodTokens tightText) ≤ guaranteedNesting := by
    have hgood : goodTokens tightText = [⟨.ident, .text "x", 1, 1⟩, ⟨.semicolon, .text ";", 1, 2⟩,
        ⟨.endOfInput, .none, 1, 3⟩] := by cbv
    rw [hgood]
    decide
  have hok : (parseText 700 tightText).outcome =
      .ok ⟨.program 1 [.leaf 1 ⟨.ident, .text "x", 1, 1⟩]⟩ := by cbv
  obtain ⟨-, hparse⟩ := parseText_respaced tightText_respaced
  have hlook := hparse 700 (by decide) hnesting
  refine ⟨tightText_respaced, by decide, hnesting, ?_⟩
  rw [hok] at hlook ⊢
  generalize (parseText 700 looseText).outcome = r at hlook
  cases hlook with
  | tree _ hrender => exact ⟨_, _, rfl, rfl, hrender 0⟩

/-! ## Where the stack is all but used up -/

/-- In front of a lexeme that stays, nothing was changed. -/
theorem Respaced.behind {l rest rest' : List Char} (hl : IsLexeme l) (hsep : Separated l rest)
    (hshort : IsDigits l → l.length ≤ maxIntegerDigits) (h : Respaced false rest rest')
    (start : Bool) : Respaced start (l ++ rest) (l ++ rest') :=
  .factor (.nil : Trivia [] (l ++ rest)) .nil (.inr (.inl rfl)) hl hsep hshort h

theorem separated_paren {c : Char} (hc : c ∈ ['(', ')', ';']) (rest : List Char) :
    IsLexeme [c] ∧ Separated [c] rest ∧ (IsDigits [c] → [c].length ≤ maxIntegerDigits) := by
  simp only [List.mem_cons, List.not_mem_nil, or_false] at hc
  rcases hc with rfl | rfl | rfl
  · exact ⟨.sign (k := .openParen) (by decide),
      separated_sign (by decide) (by decide) (by simp), fun _ => by decide⟩
  · exact ⟨.sign (k := .closeParen) (by decide),
      separated_sign (by decide) (by decide) (by simp), fun _ => by decide⟩
  · exact ⟨.sign (k := .semicolon) (by decide),
      separated_sign (by decide) (by decide) (by simp), fun _ => by decide⟩

/-- In front of any number of parentheses nothing was changed. -/
theorem Respaced.behindAll {c : Char} (hc : c ∈ ['(', ')', ';']) {rest rest' : List Char}
    (h : ∀ start, Respaced start rest rest') (n : Nat) (start : Bool) :
    Respaced start (List.replicate n c ++ rest) (List.replicate n c ++ rest') := by
  induction n generalizing start with
  | zero => exact h start
  | succ n ih =>
    obtain ⟨hl, hsep, hshort⟩ := separated_paren hc (List.replicate n c ++ rest)
    exact .behind hl hsep hshort (ih false) start

/-- An integer inside so many parentheses, with a gap behind the integer. -/
def nestedText (n : Nat) (gap : List Char) : String :=
  String.ofList (List.replicate n '(' ++ ('1' :: (gap ++ (List.replicate n ')' ++ [';']))))

/-- A blank for a gap, or an empty comment. -/
theorem nestedText_respaced (n : Nat) :
    Respaced true (nestedText (n + 1) [' ']).toList (nestedText (n + 1) ['#', '\n']).toList := by
  have hblank : ∀ rest, Trivia [' '] rest := fun _ => .blank rfl .nil
  have hempty : ∀ c ∈ ([] : List Char), c ≠ '\n' := by simp
  have hcomment : ∀ rest, Trivia ['#', '\n'] rest := fun rest =>
    .comment hempty (fun c hc => (Option.some.inj hc).symm) (.blank rfl .nil)
  have hclosing : ∀ start, Respaced start (List.replicate n ')' ++ [';'])
      (List.replicate n ')' ++ [';']) := by
    refine Respaced.behindAll (by decide) (fun start => ?_) n
    obtain ⟨hl, hsep, hshort⟩ := separated_paren (c := ';') (by decide) []
    exact .behind hl hsep hshort (.stop .nil .nil) start
  have hgap : Respaced false (' ' :: (List.replicate (n + 1) ')' ++ [';']))
      ('#' :: '\n' :: (List.replicate (n + 1) ')' ++ [';'])) := by
    obtain ⟨hl, hsep, hshort⟩ := separated_paren (c := ')') (by decide)
      (List.replicate n ')' ++ [';'])
    exact .factor (hblank _) (hcomment _) (.inr (.inr (by simp))) hl hsep hshort (hclosing false)
  have hnumber : IsLexeme ['1'] := .integer ⟨by simp, by simp⟩
  have hnumber_sep : Separated ['1'] (' ' :: (List.replicate (n + 1) ')' ++ [';'])) :=
    separated_number (by decide) fun a ha => by
      cases ha
      decide
  simp only [nestedText, String.toList_ofList]
  exact Respaced.behindAll (by decide)
    (Respaced.behind hnumber hnumber_sep (fun _ => by decide) hgap) (n + 1) true

theorem LookAlike.isOk_eq {r r' : Except Failure SyntaxTree} (h : LookAlike r r') :
    r.isOk = r'.isOk := by
  cases h <;> rfl

/-- In this room, so many parentheses are read if a blank is the gap. -/
theorem nestedText_read : (parseText 628 (nestedText 123 [' '])).outcome.isOk = true := by
  decide +kernel

/-- Texts that differ in trivia need not be parsed alike where parentheses take up the stack: a
comment may be too much where a blank is not. -/
theorem nestedTexts_told_apart : ¬ ∀ (room : Nat) (t t' : String), guaranteedRoom ≤ room →
    Respaced true t.toList t'.toList →
    LookAlike (parseText room t).outcome (parseText room t').outcome := by
  intro hall
  have hlook := hall 628 _ _ (by decide) (nestedText_respaced 122)
  have hcomment : (parseText 628 (nestedText 123 ['#', '\n'])).outcome.isOk = false := by
    decide +kernel
  have hsame := hlook.isOk_eq
  rw [nestedText_read, hcomment] at hsame
  cases hsame

end MflFrontend
