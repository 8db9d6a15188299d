import MflFrontend.Token.Lexer
import Mathlib.Data.List.TakeDrop

/-!
# The lexical grammar

A text falls into lexemes with trivia before, between and behind them. What is a lexeme, what may
stand behind it, and which token it stands for are said here without reference to how a text is
read: `Factors text fs rest` says that the text begins with the factors `fs`, each some trivia and a
lexeme, and `TokensOf` lists their tokens with the places at which they start.
-/

namespace MflFrontend

/-- The characters `w` are trivia where `rest` follows: blanks and comments. A comment goes on to
just before a line feed or to the end of the text. -/
inductive Trivia : List Char → List Char → Prop where
  /-- There may be none. -/
  | nil {rest : List Char} : Trivia [] rest
  /-- A blank and further trivia. -/
  | blank {c : Char} {w rest : List Char} (hc : isTriviaBlank c = true) (hw : Trivia w rest) :
      Trivia (c :: w) rest
  /-- A comment and further trivia. -/
  | comment {body w rest : List Char} (hbody : ∀ c ∈ body, c ≠ '\n')
      (hend : ∀ c, (w ++ rest).head? = some c → c = '\n') (hw : Trivia w rest) :
      Trivia ('#' :: (body ++ w)) rest

/-- A letter or an underscore, then letters, digits and underscores. -/
def IsWord (l : List Char) : Prop :=
  ∃ c cs, l = c :: cs ∧ isWordStart c = true ∧ ∀ a ∈ cs, isWordPart a = true

/-- At least one digit, and nothing else. -/
def IsDigits (l : List Char) : Prop := l ≠ [] ∧ ∀ c ∈ l, c.isDigit = true

/-- Digits, a point, and digits again. -/
def IsReal (l : List Char) : Prop := ∃ a b, IsDigits a ∧ IsDigits b ∧ l = a ++ '.' :: b

/-- The words that are no names. -/
def TokenKind.keywords : List (List Char × TokenKind) :=
  [(['v', 'a', 'l'], valWord), (['n', 'o', 't'], notWord), (['a', 'n', 'd'], andWord),
    (['o', 'r'], orWord), (['t', 'r', 'u', 'e'], trueLit), (['f', 'a', 'l', 's', 'e'], falseLit)]

/-- The signs. -/
def TokenKind.signs : List (List Char × TokenKind) :=
  [([':', '='], assign), (['+'], plus), (['-'], minus), (['*'], times), (['/'], divide),
    (['<'], less), (['<', '='], lessEq), (['>'], greater), (['>', '='], greaterEq), (['='], equal),
    (['!', '='], notEqual), ([';'], semicolon), (['('], openParen), ([')'], closeParen)]

/-- The lexemes. -/
inductive IsLexeme : List Char → Prop where
  /-- A word. -/
  | word {l : List Char} (h : IsWord l) : IsLexeme l
  /-- A run of digits. -/
  | integer {l : List Char} (h : IsDigits l) : IsLexeme l
  /-- A run of digits with a point among them. -/
  | real {l : List Char} (h : IsReal l) : IsLexeme l
  /-- A sign. -/
  | sign {l : List Char} {k : TokenKind} (h : (l, k) ∈ TokenKind.signs) : IsLexeme l

/-- The characters behind a lexeme do not make it longer. -/
structure Separated (l rest : List Char) : Prop where
  /-- A word is not followed by what continues a word. -/
  word : IsWord l → ∀ c, rest.head? = some c → isWordPart c = false
  /-- A number is followed neither by a digit nor by a point. -/
  number : IsDigits l ∨ IsReal l → ∀ c, rest.head? = some c → c.isDigit = false ∧ c ≠ '.'
  /-- An angle is not followed by an equals sign. -/
  angle : l = ['<'] ∨ l = ['>'] → rest.head? ≠ some '='

/-- The kind and value of the token that a lexeme stands for. -/
inductive Denotes : List Char → TokenKind → Value → Prop where
  /-- The word for truth carries it. -/
  | true : Denotes ['t', 'r', 'u', 'e'] .trueLit (.bool true)
  /-- The word for falsity carries it. -/
  | false : Denotes ['f', 'a', 'l', 's', 'e'] .falseLit (.bool false)
  /-- Any other keyword carries its text. -/
  | keyword {l : List Char} {k : TokenKind} (h : (l, k) ∈ TokenKind.keywords)
      (ht : k ≠ .trueLit) (hf : k ≠ .falseLit) : Denotes l k (.text (String.ofList l))
  /-- A word that is no keyword is a name. -/
  | name {l : List Char} (h : IsWord l) (hk : ∀ k, (l, k) ∉ TokenKind.keywords) :
      Denotes l .ident (.text (String.ofList l))
  /-- Digits are a whole number. -/
  | integer {l : List Char} (h : IsDigits l) : Denotes l .intLit (.int (ofDecimalDigits l))
  /-- Digits with a point are the double that the text is read as. -/
  | real {l : List Char} {d : Double} (h : IsReal l)
      (hd : Double.ofText? (String.ofList l) = some d) : Denotes l .realLit (.real d)
  /-- A sign carries its text. -/
  | sign {l : List Char} {k : TokenKind} (h : (l, k) ∈ TokenKind.signs) :
      Denotes l k (.text (String.ofList l))

/-- Some trivia and the lexeme behind them. -/
structure Factor where
  /-- The trivia. -/
  gap : List Char
  /-- The lexeme. -/
  lexeme : List Char

/-- The text begins with the factors, and then goes on with the last argument. -/
inductive Factors : List Char → List Factor → List Char → Prop where
  /-- Any text goes on behind no factors. -/
  | nil {text : List Char} : Factors text [] text
  /-- A factor may stand before others. -/
  | cons {gap lexeme rest last : List Char} {fs : List Factor} (hgap : Trivia gap (lexeme ++ rest))
      (hlexeme : IsLexeme lexeme) (hsep : Separated lexeme rest) (hfs : Factors rest fs last) :
      Factors (gap ++ (lexeme ++ rest)) (⟨gap, lexeme⟩ :: fs) last

/-- The line of what stands behind the characters: one more than there are line feeds. -/
def lineAt (before : List Char) : Int := 1 + before.count '\n'

/-- The column of what stands behind the characters: one more than there are since the last line
feed. -/
def columnAt (before : List Char) : Int := 1 + (before.reverse.takeWhile (· ≠ '\n')).length

/-- The tokens of factors that stand behind `before`, each where its lexeme starts, and the sentinel
at the end of the trivia that follow them. -/
inductive TokensOf : List Char → List Factor → List Char → List Token → Prop where
  /-- Behind the last factor there is only the sentinel. -/
  | nil {before last : List Char} :
      TokensOf before [] last
        [⟨.endOfInput, .none, lineAt (before ++ last), columnAt (before ++ last)⟩]
  /-- A factor's token stands before those of the others. -/
  | cons {before gap lexeme last : List Char} {fs : List Factor} {kind : TokenKind} {value : Value}
      {ts : List Token} (h : Denotes lexeme kind value)
      (hts : TokensOf (before ++ gap ++ lexeme) fs last ts) :
      TokensOf before (⟨gap, lexeme⟩ :: fs) last
        (⟨kind, value, lineAt (before ++ gap), columnAt (before ++ gap)⟩ :: ts)

/-! ## Classes of characters -/

/-- A reader of characters of a class takes all of them, up to one that is not of the class. -/
theorem takeWhile_exact {p : Char → Bool} {l rest : List Char} (hl : ∀ c ∈ l, p c = true)
    (hrest : ∀ c, rest.head? = some c → p c = false) : (l ++ rest).takeWhile p = l := by
  rw [List.takeWhile_append_of_pos hl]
  cases rest with
  | nil => rw [List.takeWhile_nil, List.append_nil]
  | cons c rest =>
    rw [List.takeWhile_cons_of_neg (by rw [hrest c rfl]; decide), List.append_nil]

theorem span_exact {p : Char → Bool} {l rest : List Char} (hl : ∀ c ∈ l, p c = true)
    (hrest : ∀ c, rest.head? = some c → p c = false) : (l ++ rest).span p = (l, rest) := by
  have htake := takeWhile_exact hl hrest
  have hsplit := List.takeWhile_append_dropWhile (p := p) (l := l ++ rest)
  rw [htake] at hsplit
  rw [List.span_eq_takeWhile_dropWhile, htake, List.append_cancel_left hsplit]

/-! ## Places -/

/-- The place of what stands behind the characters. -/
def locationAt (before : List Char) : Location := ⟨lineAt before, columnAt before⟩

theorem locationAt_after (before : List Char) (c : Char) :
    (locationAt before).after c = locationAt (before ++ [c]) := by
  unfold locationAt Location.after
  by_cases hc : c = '\n'
  · have hline : lineAt (before ++ [c]) = lineAt before + 1 := by
      rw [lineAt, List.count_append, hc, List.count_singleton_self, lineAt]
      omega
    have hcolumn : columnAt (before ++ [c]) = 1 := by
      rw [columnAt, List.reverse_append, hc]
      rfl
    rw [if_pos hc, hline, hcolumn]
  · have hline : lineAt (before ++ [c]) = lineAt before := by
      rw [lineAt, List.count_append, List.count_singleton, beq_false_of_ne hc, lineAt]
      simp
    have hcolumn : columnAt (before ++ [c]) = columnAt before + 1 := by
      rw [columnAt, List.reverse_append, List.reverse_singleton, List.singleton_append,
        List.takeWhile_cons_of_pos (by simpa using hc), List.length_cons, columnAt]
      omega
    rw [if_neg hc, hline, hcolumn]

theorem locationAt_afterAll (before cs : List Char) :
    (locationAt before).afterAll cs = locationAt (before ++ cs) := by
  induction cs generalizing before with
  | nil => rw [Location.afterAll_nil, List.append_nil]
  | cons c cs ih => rw [Location.afterAll_cons, locationAt_after, ih, List.append_assoc,
      List.singleton_append]

end MflFrontend
