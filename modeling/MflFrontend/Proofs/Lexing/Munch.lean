import MflFrontend.Proofs.Decimal.Literal
import MflFrontend.Proofs.Lexing.Characters
import Mathlib.Data.List.TakeWhile

/-!
# What is read from the characters in front

Each class of lexemes has its branch in `Lexeme.read`. A lexeme that is separated from what follows
is read whole, as the token that it stands for; and where no lexeme stands in front, a lexical fault
is found.
-/

namespace MflFrontend

/-! ## Words -/

theorem spellings_eq : TokenKind.spellings = TokenKind.keywords ++ TokenKind.signs := rfl

theorem ofWord_name {l : List Char} (hl : IsWord l) (hk : ∀ k, (l, k) ∉ TokenKind.keywords) :
    Lexeme.ofWord l = (.ident, .text (String.ofList l)) := by
  have hnone : TokenKind.ofSpelling? l = none := by
    unfold TokenKind.ofSpelling?
    rw [Option.map_eq_none_iff, List.find?_eq_none, spellings_eq]
    rintro ⟨w, k⟩ hmem heq
    have hw : w = l := by simpa using heq
    subst hw
    rcases List.mem_append.mp hmem with hmem | hmem
    · exact hk k hmem
    · obtain ⟨c, cs, rfl, hc, -⟩ := hl
      rw [(head_of_sign hmem).1] at hc
      exact absurd hc (by decide)
  unfold Lexeme.ofWord
  rw [hnone]

theorem ofWord_keyword {l : List Char} {k : TokenKind} (h : (l, k) ∈ TokenKind.keywords)
    (ht : k ≠ .trueLit) (hf : k ≠ .falseLit) :
    Lexeme.ofWord l = (k, .text (String.ofList l)) := by
  have hsome : TokenKind.ofSpelling? l = some k := by
    have hall : ∀ e ∈ TokenKind.keywords, TokenKind.ofSpelling? e.1 = some e.2 := by decide
    exact hall _ h
  unfold Lexeme.ofWord
  rw [hsome]
  cases k <;> first | rfl | exact absurd rfl ht | exact absurd rfl hf

theorem isWord_of_keyword {l : List Char} {k : TokenKind} (h : (l, k) ∈ TokenKind.keywords) :
    IsWord l := by
  have hall : ∀ e ∈ TokenKind.keywords, ∃ c cs, e.1 = c :: cs ∧ isWordStart c = true ∧
      ∀ a ∈ cs, isWordPart a = true := by
    intro e he
    simp only [TokenKind.keywords, List.mem_cons, List.not_mem_nil, or_false] at he
    rcases he with rfl | rfl | rfl | rfl | rfl | rfl
    all_goals exact ⟨_, _, rfl, rfl, List.all_eq_true.mp rfl⟩
  exact hall _ h

/-- Every fixed spelling is a lexeme. -/
theorem isLexeme_of_spelling {l : List Char} {k : TokenKind} (h : (l, k) ∈ TokenKind.spellings) :
    IsLexeme l := by
  rw [spellings_eq] at h
  rcases List.mem_append.mp h with hkeyword | hsign
  · exact .word (isWord_of_keyword hkeyword)
  · exact .sign hsign

theorem read_word {c : Char} {cs rest : List Char} (hc : isWordStart c = true)
    (hcs : ∀ a ∈ cs, isWordPart a = true)
    (hrest : ∀ a, rest.head? = some a → isWordPart a = false) :
    Lexeme.read c (cs ++ rest) = ⟨(c :: cs).length, .ok (Lexeme.ofWord (c :: cs))⟩ := by
  unfold Lexeme.read
  simp only
  rw [if_pos hc, takeWhile_exact hcs hrest]

/-! ## Numbers -/

/-- All digits in front are taken before a point is looked for. -/
theorem read_digits {c : Char} {cs rest : List Char} (hc : c.isDigit = true)
    (hcs : ∀ a ∈ cs, a.isDigit = true) (hrest : ∀ a, rest.head? = some a → a.isDigit = false) :
    Lexeme.read c (cs ++ rest) = Lexeme.readNumber (c :: cs) rest := by
  have hword : ¬ isWordStart c = true := by
    rw [isWordStart_of_isDigit hc]
    decide
  unfold Lexeme.read
  simp only
  rw [if_neg hword, if_pos hc, takeWhile_exact hcs hrest, ← List.cons_append, List.drop_left]

theorem read_integer {c : Char} {cs rest : List Char} (h : IsDigits (c :: cs))
    (hrest : ∀ a, rest.head? = some a → a.isDigit = false ∧ a ≠ '.') :
    Lexeme.read c (cs ++ rest) = ⟨(c :: cs).length, Lexeme.ofDigits (c :: cs)⟩ := by
  obtain ⟨hc, hcs⟩ := List.forall_mem_cons.mp h.2
  rw [read_digits hc hcs fun a ha => (hrest a ha).1]
  unfold Lexeme.readNumber
  cases rest with
  | nil => rfl
  | cons a rest =>
    have ha : a ≠ '.' := (hrest a rfl).2
    split
    · next heq =>
      injection heq with heq
      exact absurd heq ha
    · rfl

theorem read_real {c : Char} {a b rest : List Char} (ha : IsDigits (c :: a)) (hb : IsDigits b)
    (hrest : ∀ d, rest.head? = some d → d.isDigit = false ∧ d ≠ '.') :
    Lexeme.read c (a ++ '.' :: (b ++ rest)) =
      ⟨(c :: a).length + 1 + b.length, .ok (Lexeme.ofReal (c :: a) b)⟩ := by
  obtain ⟨hc, hcs⟩ := List.forall_mem_cons.mp ha.2
  have hpoint : ∀ d, ('.' :: (b ++ rest)).head? = some d → d.isDigit = false := by
    intro d hd
    cases hd
    rfl
  rw [read_digits hc hcs hpoint]
  unfold Lexeme.readNumber
  simp only
  rw [takeWhile_exact hb.2 fun d hd => (hrest d hd).1, List.drop_left]
  have hempty : ¬ b.isEmpty = true := by
    rw [List.isEmpty_eq_false_iff.mpr hb.1]
    decide
  have hsecond : ¬ (rest.head? == some '.') = true := by
    intro h
    exact (hrest '.' (by simpa using h)).2 rfl
  rw [if_neg hempty, if_neg hsecond]

/-! ## Signs -/

theorem mem_of_ofSpelling? {l : List Char} {k : TokenKind} (h : TokenKind.ofSpelling? l = some k) :
    (l, k) ∈ TokenKind.spellings := by
  obtain ⟨⟨w, k'⟩, hfind, rfl⟩ := Option.map_eq_some_iff.mp h
  have hw : w = l := by simpa using List.find?_some hfind
  exact hw ▸ List.mem_of_find?_eq_some hfind

theorem ofSpelling?_sign {l : List Char} {k : TokenKind} (h : (l, k) ∈ TokenKind.signs) :
    TokenKind.ofSpelling? l = some k := by
  have hall : ∀ e ∈ TokenKind.signs, TokenKind.ofSpelling? e.1 = some e.2 := by decide
  exact hall _ h

/-- A fixed spelling that begins like no word is a sign. -/
theorem mem_signs {c : Char} {cs : List Char} {k : TokenKind} (hc : isWordStart c = false)
    (h : TokenKind.ofSpelling? (c :: cs) = some k) : (c :: cs, k) ∈ TokenKind.signs := by
  have hmem := mem_of_ofSpelling? h
  rw [spellings_eq] at hmem
  rcases List.mem_append.mp hmem with hmem | hmem
  · obtain ⟨a, as, heq, ha, -⟩ := isWord_of_keyword hmem
    injection heq with heq
    rw [← heq, hc] at ha
    exact absurd ha (by decide)
  · exact hmem

/-- A sign that is the front of a longer one is an angle, and the longer one goes on with an equals
sign. -/
theorem angle_of_longer_sign {c d : Char} {k k' : TokenKind} (h : ([c], k) ∈ TokenKind.signs)
    (h' : ([c, d], k') ∈ TokenKind.signs) : ([c] = ['<'] ∨ [c] = ['>']) ∧ d = '=' := by
  have hall : ∀ e ∈ TokenKind.signs, ∀ e' ∈ TokenKind.signs, e.1 = e'.1.take 1 →
      e'.1.drop 1 = [] ∨ (e.1 = ['<'] ∨ e.1 = ['>']) ∧ e'.1.drop 1 = ['='] := by decide
  rcases hall _ h _ h' rfl with hnil | ⟨hangle, hequals⟩
  · exact absurd hnil (List.cons_ne_nil d [])
  · exact ⟨hangle, List.head_eq_of_cons_eq hequals⟩

/-- Where neither a word nor a number begins, it is left to the signs what is read. -/
theorem read_unworded {c : Char} (hword : isWordStart c = false) (hdigit : c.isDigit = false)
    (cs : List Char) :
    Lexeme.read c cs = match Lexeme.sign? (c :: cs) with
      | some (spelling, kind) => ⟨spelling.length, .ok (kind, .text (String.ofList spelling))⟩
      | none => ⟨0, .error (.lexical (.unexpectedCharacter c))⟩ := by
  unfold Lexeme.read
  rw [hword, hdigit]
  rfl

theorem read_sign {c : Char} {cs rest : List Char} {k : TokenKind}
    (h : (c :: cs, k) ∈ TokenKind.signs)
    (hrest : c :: cs = ['<'] ∨ c :: cs = ['>'] → rest.head? ≠ some '=') :
    Lexeme.read c (cs ++ rest) = ⟨(c :: cs).length, .ok (k, .text (String.ofList (c :: cs)))⟩ := by
  obtain ⟨hword, hdigit⟩ := head_of_sign h
  have hlength : cs = [] ∨ ∃ d, cs = [d] := by
    have hall : ∀ e ∈ TokenKind.signs, e.1.length ≤ 2 := by decide
    have hle := hall _ h
    match cs, hle with
    | [], _ => exact .inl rfl
    | [d], _ => exact .inr ⟨d, rfl⟩
    | _ :: _ :: _, hle => simp at hle
  have hsign : Lexeme.sign? (c :: (cs ++ rest)) = some (c :: cs, k) := by
    unfold Lexeme.sign? Lexeme.spelling?
    simp only
    rcases hlength with rfl | ⟨d, rfl⟩
    · have hone : TokenKind.ofSpelling? [c] = some k := ofSpelling?_sign h
      cases rest with
      | nil => simp [hone]
      | cons d rest =>
        have hnone : TokenKind.ofSpelling? [c, d] = none := by
          cases htwo : TokenKind.ofSpelling? [c, d] with
          | none => rfl
          | some k' =>
            obtain ⟨hangle, rfl⟩ := angle_of_longer_sign h (mem_signs hword htwo)
            exact absurd rfl (hrest hangle)
        simp [hone, hnone]
    · have htwo : TokenKind.ofSpelling? [c, d] = some k := ofSpelling?_sign h
      simp [htwo]
  rw [read_unworded hword hdigit, hsign]

/-! ## Lexemes -/

/-- Every lexeme stands for a token. -/
theorem IsLexeme.denotes {l : List Char} (h : IsLexeme l) : ∃ kind value, Denotes l kind value := by
  cases h with
  | word h =>
    by_cases hk : ∃ k, (l, k) ∈ TokenKind.keywords
    · obtain ⟨k, hk⟩ := hk
      by_cases ht : k = .trueLit
      · have hl : l = ['t', 'r', 'u', 'e'] := by
          have hall : ∀ e ∈ TokenKind.keywords, e.2 = .trueLit → e.1 = ['t', 'r', 'u', 'e'] := by
            decide
          exact hall _ hk ht
        exact hl ▸ ⟨_, _, .true⟩
      · by_cases hf : k = .falseLit
        · have hl : l = ['f', 'a', 'l', 's', 'e'] := by
            have hall : ∀ e ∈ TokenKind.keywords,
                e.2 = .falseLit → e.1 = ['f', 'a', 'l', 's', 'e'] := by decide
            exact hall _ hk hf
          exact hl ▸ ⟨_, _, .false⟩
        · exact ⟨_, _, .keyword hk ht hf⟩
    · exact ⟨_, _, .name h fun k hmem => hk ⟨k, hmem⟩⟩
  | integer h => exact ⟨_, _, .integer h⟩
  | real h =>
    have ⟨a, b, ha, hb, hl⟩ := h
    exact ⟨_, _, .real h (hl ▸ Double.ofText?_real ha hb)⟩
  | sign h => exact ⟨_, _, .sign h⟩

/-- A lexeme that is separated from what follows is read whole, as what it stands for. -/
theorem Denotes.read {l rest : List Char} {kind : TokenKind} {value : Value}
    (h : Denotes l kind value) (hsep : Separated l rest)
    (hlength : IsDigits l → l.length ≤ maxIntegerDigits) :
    ∃ c cs, l = c :: cs ∧ Lexeme.read c (cs ++ rest) = ⟨l.length, .ok (kind, value)⟩ := by
  have hword : ∀ l, IsWord l → Separated l rest → ∃ c cs, l = c :: cs ∧
      Lexeme.read c (cs ++ rest) = ⟨l.length, .ok (Lexeme.ofWord l)⟩ := by
    rintro _ hl hsep
    have ⟨c, cs, heq, hc, hcs⟩ := hl
    subst heq
    exact ⟨c, cs, rfl, read_word hc hcs (hsep.word hl)⟩
  cases h with
  | true => exact hword _ (isWord_of_keyword (k := .trueLit) (by decide)) hsep
  | false => exact hword _ (isWord_of_keyword (k := .falseLit) (by decide)) hsep
  | keyword hk ht hf =>
    have hread := hword l (isWord_of_keyword hk) hsep
    rwa [ofWord_keyword hk ht hf] at hread
  | name hl hk =>
    have hread := hword l hl hsep
    rwa [ofWord_name hl hk] at hread
  | integer hl =>
    obtain ⟨c, cs, rfl⟩ := List.exists_cons_of_ne_nil hl.1
    refine ⟨c, cs, rfl, ?_⟩
    rw [read_integer hl (hsep.number (.inl hl))]
    unfold Lexeme.ofDigits
    rw [if_neg (Nat.not_lt.mpr (hlength hl))]
  | @real _ d hl hd =>
    have ⟨a, b, ha, hb, heq⟩ := hl
    subst heq
    obtain ⟨c, a, rfl⟩ := List.exists_cons_of_ne_nil ha.1
    rw [Double.ofText?_real ha hb] at hd
    injection hd with hd
    refine ⟨c, a ++ '.' :: b, rfl, ?_⟩
    have hlen : (c :: a).length + 1 + b.length = (c :: a ++ '.' :: b).length := by
      rw [List.length_append, List.length_cons]
      simp
      omega
    rw [List.append_assoc, List.cons_append, read_real ha hb (hsep.number (.inr hl)),
      Lexeme.ofReal, hd, hlen]
  | sign h =>
    have hne : l ≠ [] := by
      have hall : ∀ e ∈ TokenKind.signs, e.1 ≠ [] := by decide
      exact hall _ h
    obtain ⟨c, cs, rfl⟩ := List.exists_cons_of_ne_nil hne
    exact ⟨c, cs, rfl, read_sign h hsep.angle⟩

/-- Of a lexeme that is separated from what follows, no more and no less is taken, even if it is a
number that is too long. -/
theorem IsLexeme.length_read {l rest : List Char} (h : IsLexeme l) (hsep : Separated l rest) :
    ∃ c cs, l = c :: cs ∧ (Lexeme.read c (cs ++ rest)).length = l.length := by
  by_cases hl : IsDigits l
  · obtain ⟨c, cs, rfl⟩ := List.exists_cons_of_ne_nil hl.1
    exact ⟨c, cs, rfl, by rw [read_integer hl (hsep.number (.inl hl))]⟩
  · obtain ⟨kind, value, hdenotes⟩ := h.denotes
    obtain ⟨c, cs, heq, hread⟩ := hdenotes.read hsep fun hdigits => absurd hdigits hl
    exact ⟨c, cs, heq, by rw [hread]⟩

/-! ## How much is taken -/

theorem length_readNumber_le (whole rest : List Char) :
    (Lexeme.readNumber whole rest).length ≤ whole.length + rest.length := by
  unfold Lexeme.readNumber
  split
  · next rest =>
    have hfraction : (rest.takeWhile Char.isDigit).length ≤ rest.length :=
      (List.takeWhile_prefix _).length_le
    simp only [List.length_cons]
    split
    · simp only; omega
    split
    · simp only; omega
    · simp only; omega
  · exact Nat.le_add_right _ _

theorem length_sign_le {cs l : List Char} {k : TokenKind} (h : Lexeme.sign? cs = some (l, k)) :
    l.length ≤ cs.length := by
  have hfront : ∀ n, Lexeme.spelling? n cs = some (l, k) → l.length ≤ cs.length := by
    intro n hn
    unfold Lexeme.spelling? at hn
    simp only at hn
    split at hn
    · cases hn
    · obtain ⟨k', -, heq⟩ := Option.map_eq_some_iff.mp hn
      injection heq with hl
      exact hl ▸ (List.take_prefix n cs).length_le
  unfold Lexeme.sign? at h
  cases htwo : Lexeme.spelling? 2 cs with
  | some e =>
    rw [htwo] at h
    exact hfront 2 (htwo.trans h)
  | none =>
    rw [htwo] at h
    exact hfront 1 h

/-- No more is taken than there is. -/
theorem length_read_le (c : Char) (cs : List Char) :
    (Lexeme.read c cs).length ≤ (c :: cs).length := by
  have hlength : ∀ p : Char → Bool, (c :: cs.takeWhile p).length ≤ (c :: cs).length := fun p =>
    Nat.succ_le_succ (List.takeWhile_prefix p).length_le
  unfold Lexeme.read
  split
  · exact hlength isWordPart
  split
  · have hnumber := length_readNumber_le (c :: cs.takeWhile Char.isDigit)
      ((c :: cs).drop (c :: cs.takeWhile Char.isDigit).length)
    have hwhole := hlength Char.isDigit
    rw [List.length_drop] at hnumber
    simp only
    omega
  · split
    · next hsign => exact length_sign_le hsign
    · exact Nat.zero_le _

/-! ## Where no lexeme stands in front -/

theorem IsWord.head {c : Char} {cs : List Char} (h : IsWord (c :: cs)) : isWordStart c = true := by
  obtain ⟨a, as, heq, ha, -⟩ := h
  injection heq with heq
  exact heq ▸ ha

theorem isDigit_of_number {c : Char} {cs : List Char}
    (h : IsDigits (c :: cs) ∨ IsReal (c :: cs)) : c.isDigit = true := by
  rcases h with h | ⟨a, b, ha, -, heq⟩
  · exact h.2 c List.mem_cons_self
  · obtain ⟨d, a, rfl⟩ := List.exists_cons_of_ne_nil ha.1
    injection heq with heq
    exact heq ▸ ha.2 d List.mem_cons_self

theorem separated_word {c : Char} {cs rest : List Char} (hc : isWordStart c = true)
    (h : ∀ a, rest.head? = some a → isWordPart a = false) : Separated (c :: cs) rest := by
  refine ⟨fun _ => h, fun hnumber => ?_, fun hangle => ?_⟩
  · rw [isWordStart_of_isDigit (isDigit_of_number hnumber)] at hc
    exact absurd hc (by decide)
  · rcases hangle with heq | heq
    all_goals
      injection heq with heq
      rw [heq] at hc
      exact absurd hc (by decide)

theorem separated_number {c : Char} {cs rest : List Char} (hc : c.isDigit = true)
    (h : ∀ a, rest.head? = some a → a.isDigit = false ∧ a ≠ '.') : Separated (c :: cs) rest := by
  refine ⟨fun hword => ?_, fun _ => h, fun hangle => ?_⟩
  · have hstart := hword.head
    rw [isWordStart_of_isDigit hc] at hstart
    exact absurd hstart (by decide)
  · rcases hangle with heq | heq
    all_goals
      injection heq with heq
      rw [heq] at hc
      exact absurd hc (by decide)

theorem separated_sign {c : Char} {cs rest : List Char} (hword : isWordStart c = false)
    (hdigit : c.isDigit = false)
    (h : c :: cs = ['<'] ∨ c :: cs = ['>'] → rest.head? ≠ some '=') :
    Separated (c :: cs) rest := by
  refine ⟨fun hl => ?_, fun hl => ?_, h⟩
  · rw [hl.head] at hword
    exact absurd hword (by decide)
  · rw [isDigit_of_number hl] at hdigit
    exact absurd hdigit (by decide)

/-- The longest run of characters of a class. -/
theorem exists_run (p : Char → Bool) (cs : List Char) :
    ∃ run rest, cs = run ++ rest ∧ (∀ c ∈ run, p c = true) ∧
      ∀ c, rest.head? = some c → p c = false := by
  refine ⟨cs.takeWhile p, cs.dropWhile p, List.takeWhile_append_dropWhile.symm, ?_, ?_⟩
  · intro c hc
    exact List.mem_takeWhile_imp hc
  · intro c hc
    have hnot := List.head?_dropWhile_not p cs
    rw [hc] at hnot
    simpa using hnot

/-- Where a digit stands in front, a point must have digits on both sides and no second one may
follow. -/
theorem number_or_fault {c : Char} (hc : c.isDigit = true) (cs : List Char) :
    (∃ l rest, c :: cs = l ++ rest ∧ IsLexeme l ∧ Separated l rest) ∨
      ∃ fault, (Lexeme.read c cs).outcome = .error (.lexical fault) := by
  obtain ⟨a, rest, rfl, ha, hstop⟩ := exists_run Char.isDigit cs
  have hwhole : IsDigits (c :: a) := ⟨List.cons_ne_nil c a, List.forall_mem_cons.mpr ⟨hc, ha⟩⟩
  by_cases hpoint : rest.head? = some '.'
  · obtain ⟨rest, rfl⟩ := List.head?_eq_some_iff.mp hpoint
    obtain ⟨b, last, rfl, hb, hend⟩ := exists_run Char.isDigit rest
    rw [read_digits hc ha hstop]
    unfold Lexeme.readNumber
    simp only
    rw [takeWhile_exact hb hend, List.drop_left]
    by_cases hempty : b.isEmpty = true
    · right
      rw [if_pos hempty]
      exact ⟨_, rfl⟩
    · rw [if_neg hempty]
      by_cases hsecond : last.head? = some '.'
      · right
        rw [hsecond, if_pos (by decide)]
        exact ⟨_, rfl⟩
      · left
        have hfraction : IsDigits b := ⟨fun h => hempty (List.isEmpty_iff.mpr h), hb⟩
        refine ⟨c :: a ++ '.' :: b, last, by simp, .real ⟨_, _, hwhole, hfraction, rfl⟩,
          separated_number hc fun d hd => ⟨hend d hd, ?_⟩⟩
        rintro rfl
        exact hsecond hd
  · left
    refine ⟨c :: a, rest, List.cons_append, .integer hwhole,
      separated_number hc fun d hd => ⟨hstop d hd, ?_⟩⟩
    rintro rfl
    exact hpoint hd

/-- Where neither a word nor a number begins, a sign must stand in front. -/
theorem sign_or_fault {c : Char} (hword : isWordStart c = false) (hdigit : c.isDigit = false)
    (cs : List Char) :
    (∃ l rest, c :: cs = l ++ rest ∧ IsLexeme l ∧ Separated l rest) ∨
      ∃ fault, (Lexeme.read c cs).outcome = .error (.lexical fault) := by
  -- the longer sign wins, so that a shorter one is tried only where none of two characters stands
  by_cases htwo : ∃ d rest k, cs = d :: rest ∧ ([c, d], k) ∈ TokenKind.signs
  · left
    obtain ⟨d, rest, k, rfl, hmem⟩ := htwo
    refine ⟨[c, d], rest, rfl, .sign hmem, separated_sign hword hdigit fun hangle => ?_⟩
    rcases hangle with heq | heq
    all_goals simp at heq
  · by_cases hone : ∃ k, ([c], k) ∈ TokenKind.signs
    · left
      obtain ⟨k, hmem⟩ := hone
      refine ⟨[c], cs, rfl, .sign hmem, separated_sign hword hdigit fun hangle hequals => ?_⟩
      obtain ⟨rest, rfl⟩ := List.head?_eq_some_iff.mp hequals
      apply htwo
      rcases hangle with heq | heq
      · injection heq with heq
        exact ⟨'=', rest, .lessEq, rfl, by rw [heq]; decide⟩
      · injection heq with heq
        exact ⟨'=', rest, .greaterEq, rfl, by rw [heq]; decide⟩
    · right
      have hshort : TokenKind.ofSpelling? [c] = none := by
        cases h : TokenKind.ofSpelling? [c] with
        | none => rfl
        | some k => exact absurd ⟨k, mem_signs hword h⟩ hone
      have hlong : ∀ d rest, cs = d :: rest → TokenKind.ofSpelling? [c, d] = none := by
        intro d rest hcs
        cases h : TokenKind.ofSpelling? [c, d] with
        | none => rfl
        | some k => exact absurd ⟨d, rest, k, hcs, mem_signs hword h⟩ htwo
      have hsign : Lexeme.sign? (c :: cs) = none := by
        unfold Lexeme.sign? Lexeme.spelling?
        cases cs with
        | nil => simp [hshort]
        | cons d rest => simp [hshort, hlong d rest rfl]
      refine ⟨.unexpectedCharacter c, ?_⟩
      rw [read_unworded hword hdigit, hsign]

/-- Either a lexeme stands in front, separated from what follows, or a lexical fault is found. -/
theorem lexeme_or_fault (c : Char) (cs : List Char) :
    (∃ l rest, c :: cs = l ++ rest ∧ IsLexeme l ∧ Separated l rest) ∨
      ∃ fault, (Lexeme.read c cs).outcome = .error (.lexical fault) := by
  by_cases hword : isWordStart c = true
  · left
    obtain ⟨w, rest, rfl, hw, hstop⟩ := exists_run isWordPart cs
    exact ⟨c :: w, rest, List.cons_append, .word ⟨c, w, rfl, hword, hw⟩,
      separated_word hword hstop⟩
  · rw [Bool.not_eq_true] at hword
    by_cases hdigit : c.isDigit = true
    · exact number_or_fault hdigit cs
    · rw [Bool.not_eq_true] at hdigit
      exact sign_or_fault hword hdigit cs

end MflFrontend
