import MflFrontend.Proofs.Decimal.Notation
import MflFrontend.Proofs.Text.Quoted
import MflFrontend.Text.Document

/-!
# The grammar of JSON

What a JSON text is, apart from how this library writes one. A text starts with a document and goes
on with a rest: literals and numbers as they are written, strings between double quotes, lists and
records between brackets with commas between their elements, and blanks wherever two parts meet.

A string stands for sixteen-bit units, as its escapes do, and half of a character is a unit too.
Which text the units are is a parameter: any text for the grammar alone, and the text with these
units for what the document says.

A number without a fraction and an exponent stands for an integer; any other one stands for the
closest double.
-/

namespace MflFrontend

/-! ## Blanks -/

/-- The characters that may stand between the parts of a JSON text. -/
def isJsonBlank (c : Char) : Bool := [' ', '\t', '\n', '\r'].contains c

/-- The text starts with blanks, maybe none, and goes on with the rest. -/
inductive Blanks : List Char → List Char → Prop where
  | stop {r : List Char} : Blanks r r
  | skip {c : Char} {cs r : List Char} (hc : isJsonBlank c = true) (h : Blanks cs r) :
      Blanks (c :: cs) r

/-! ## Strings -/

/-- The sixteen-bit units of a character. -/
def utf16 (c : Char) : List Nat :=
  if c.toNat < 0x10000 then [c.toNat]
  else
    let n := c.toNat - 0x10000
    [0xd800 + n / 0x400, 0xdc00 + n % 0x400]

/-- The sixteen-bit units of a text. -/
def units (s : String) : List Nat := s.toList.flatMap utf16

/-- The letters that may stand behind a backslash, and the characters that they stand for. -/
def shortEscapes : List (Char × Char) :=
  [(doubleQuote, doubleQuote), ('\\', '\\'), ('/', '/'), ('b', '\x08'), ('f', '\x0c'), ('n', '\n'),
    ('r', '\r'), ('t', '\t')]

/-- The text starts with what stands behind the opening quote of a string of these units, up to the
closing one, and goes on with the rest. -/
inductive StringRest : List Char → List Nat → List Char → Prop where
  | close {r : List Char} : StringRest (doubleQuote :: r) [] r
  | plain {c : Char} {cs r : List Char} {us : List Nat} (hcontrol : 0x20 ≤ c.toNat)
      (hquote : c ≠ doubleQuote) (hescape : c ≠ '\\') (h : StringRest cs us r) :
      StringRest (c :: cs) (utf16 c ++ us) r
  | short {letter c : Char} {cs r : List Char} {us : List Nat}
      (hletter : (letter, c) ∈ shortEscapes) (h : StringRest cs us r) :
      StringRest ('\\' :: letter :: cs) (utf16 c ++ us) r
  | code {ds cs r : List Char} {us : List Nat} (hlength : ds.length = 4)
      (hdigits : ∀ c ∈ ds, (hexDigit? c).isSome = true) (h : StringRest cs us r) :
      StringRest ('\\' :: 'u' :: (ds ++ cs)) (hexValue ds :: us) r

/-! ## Numbers -/

/-- The text of a number, and its value. -/
inductive NumberText : List Char → Value → Prop where
  | int {w : List Char} (hw : IsWhole w) : NumberText w (.int (ofDecimalDigits w))
  | negativeInt {w : List Char} (hw : IsWhole w) :
      NumberText ('-' :: w) (.int (-(ofDecimalDigits w : Int)))
  | real {l : List Char} {n : Numeral} (h : RealText l n) : NumberText l (.real n.closest)
  | negativeReal {l : List Char} {n : Numeral} (h : RealText l n) :
      NumberText ('-' :: l) (.real n.closest.neg)

/-! ## Documents -/

/-- The text starts with elements, at least one, with commas between them and blanks around them,
and with the closing bracket behind them, and goes on with the rest. -/
inductive Series {α : Type} (E : List Char → α → List Char → Prop) (closing : Char) :
    List Char → List α → List Char → Prop where
  | last {cs cs' cs'' r : List Char} {a : α} (hbefore : Blanks cs cs') (ha : E cs' a cs'')
      (hafter : Blanks cs'' (closing :: r)) : Series E closing cs [a] r
  | more {cs cs' cs'' more r : List Char} {a : α} {as : List α} (hbefore : Blanks cs cs')
      (ha : E cs' a cs'') (hafter : Blanks cs'' (',' :: more)) (h : Series E closing more as r) :
      Series E closing cs (a :: as) r

section

variable (M : List Nat → String → Prop)

/-- The text starts with a string, a colon and what the field holds, and goes on with the rest. -/
inductive Member (E : List Char → Document → List Char → Prop) :
    List Char → String × Document → List Char → Prop where
  | mk {cs cs' more more' r : List Char} {us : List Nat} {name : String} {d : Document}
      (hname : StringRest cs us cs') (hunits : M us name) (hbefore : Blanks cs' (':' :: more))
      (hafter : Blanks more more') (hd : E more' d r) : Member E (doubleQuote :: cs) (name, d) r

/-- The text starts with a document and goes on with the rest. What units are which text is told by
`M`. -/
inductive ReadsJson : List Char → Document → List Char → Prop where
  | null {r : List Char} : ReadsJson ('n' :: 'u' :: 'l' :: 'l' :: r) (.value .none) r
  | yes {r : List Char} : ReadsJson ('t' :: 'r' :: 'u' :: 'e' :: r) (.value (.bool true)) r
  | no {r : List Char} : ReadsJson ('f' :: 'a' :: 'l' :: 's' :: 'e' :: r) (.value (.bool false)) r
  | number {l r : List Char} {v : Value} (h : NumberText l v) : ReadsJson (l ++ r) (.value v) r
  | string {cs r : List Char} {us : List Nat} {s : String} (h : StringRest cs us r)
      (hunits : M us s) : ReadsJson (doubleQuote :: cs) (.value (.text s)) r
  | emptyList {cs r : List Char} (h : Blanks cs (']' :: r)) : ReadsJson ('[' :: cs) (.list []) r
  | list {cs r : List Char} {items : List Document} (h : Series ReadsJson ']' cs items r) :
      ReadsJson ('[' :: cs) (.list items) r
  | emptyRecord {cs r : List Char} (h : Blanks cs ('\x7d' :: r)) :
      ReadsJson ('\x7b' :: cs) (.record []) r
  | record {cs r : List Char} {fields : List (String × Document)}
      (h : Series (Member M ReadsJson) '\x7d' cs fields r) :
      ReadsJson ('\x7b' :: cs) (.record fields) r

/-- The whole text is a document, with blanks around it. -/
def JsonText (text : String) (d : Document) : Prop :=
  ∃ cs r, Blanks text.toList cs ∧ ReadsJson M cs d r ∧ Blanks r []

end

/-- The text follows the grammar of JSON. -/
def IsJson (text : String) : Prop := ∃ d, JsonText (fun _ _ => True) text d

/-- The text is JSON and says the document. -/
def Says (text : String) (d : Document) : Prop := JsonText (fun us s => us = units s) text d

/-! ## Where blanks and strings end -/

theorem Blanks.unique {cs r s : List Char} {c d : Char} (h : Blanks cs (c :: r))
    (h' : Blanks cs (d :: s)) (hc : isJsonBlank c = false) (hd : isJsonBlank d = false) :
    c :: r = d :: s := by
  generalize hx : c :: r = x at h
  induction h with
  | stop =>
    subst hx
    cases h' with
    | stop => rfl
    | skip hblank _ =>
      rw [hc] at hblank
      cases hblank
  | skip hblank _ ih =>
    cases h' with
    | stop =>
      rw [hd] at hblank
      cases hblank
    | skip _ h' => exact ih h' hx

theorem isJsonBlank_cases {c : Char} (h : isJsonBlank c = true) :
    c = ' ' ∨ c = '\t' ∨ c = '\n' ∨ c = '\r' := by
  simpa [isJsonBlank] using h

/-- A blank is not a part of a number. -/
theorem isNumberChar_of_blank {c : Char} (h : isJsonBlank c = true) : isNumberChar c = false := by
  rcases isJsonBlank_cases h with rfl | rfl | rfl | rfl <;> rfl

theorem shortEscapes_functional : ∀ entry ∈ shortEscapes, ∀ entry' ∈ shortEscapes,
    entry.1 = entry'.1 → entry = entry' := by decide

theorem shortEscapes_ne_code : ∀ entry ∈ shortEscapes, entry.1 ≠ 'u' := by decide

/-- Behind the opening quote, a text tells the units of the string and where it ends. -/
theorem StringRest.unique {cs r r' : List Char} {us us' : List Nat} (h : StringRest cs us r)
    (h' : StringRest cs us' r') : us = us' ∧ r = r' := by
  induction h generalizing us' with
  | close =>
    cases h' with
    | close => exact ⟨rfl, rfl⟩
    | plain _ hquote _ _ => exact absurd rfl hquote
  | plain hcontrol hquote hescape _ ih =>
    cases h' with
    | close => exact absurd rfl hquote
    | plain _ _ _ h' =>
      obtain ⟨rfl, hr⟩ := ih h'
      exact ⟨rfl, hr⟩
    | short _ _ => exact absurd rfl hescape
    | code _ _ _ => exact absurd rfl hescape
  | short hletter _ ih =>
    cases h' with
    | plain _ _ hescape _ => exact absurd rfl hescape
    | short hletter' h' =>
      cases shortEscapes_functional _ hletter _ hletter' rfl
      obtain ⟨rfl, hr⟩ := ih h'
      exact ⟨rfl, hr⟩
    | code _ _ _ => exact absurd rfl (shortEscapes_ne_code _ hletter)
  | @code ds cs r us hlength hdigits _ ih =>
    generalize hcs : '\\' :: 'u' :: (ds ++ cs) = text at h'
    cases h' with
    | close => cases hcs
    | plain _ _ hescape _ => exact absurd (List.cons.inj hcs).1.symm hescape
    | short hletter' _ =>
      cases hcs
      exact absurd rfl (shortEscapes_ne_code _ hletter')
    | code hlength' _ h' =>
      obtain ⟨rfl, rfl⟩ := List.append_inj (List.cons.inj (List.cons.inj hcs).2).2
        (hlength.trans hlength'.symm)
      obtain ⟨rfl, hr⟩ := ih h'
      exact ⟨rfl, hr⟩

/-! ## The values of numbers -/

/-- The value of the text of a number. -/
def valueOfNumber? (l : List Char) : Option Value :=
  match integerOfChars? l with
  | some n => some (.int n)
  | none => (Double.ofText? (String.ofList l)).map .real

namespace NumberText

variable {l : List Char} {v : Value}

theorem isNumberChar (h : NumberText l v) : ∀ c ∈ l, MflFrontend.isNumberChar c = true := by
  cases h with
  | int hw => exact hw.isDigits.isNumberChar
  | negativeInt hw => exact List.forall_mem_cons.mpr ⟨rfl, hw.isDigits.isNumberChar⟩
  | real h => exact h.isNumberChar
  | negativeReal h => exact List.forall_mem_cons.mpr ⟨rfl, h.isNumberChar⟩

/-- A number starts with a digit, or with a minus sign and a digit. -/
theorem exists_digit (h : NumberText l v) : ∃ c rest, c.isDigit = true ∧
    (l = c :: rest ∨ l = '-' :: c :: rest) := by
  have hwhole : ∀ {w : List Char}, IsWhole w → ∃ c rest, c.isDigit = true ∧ w = c :: rest := by
    intro w hw
    obtain ⟨c, rest, rfl⟩ := List.exists_cons_of_ne_nil hw.isDigits.1
    exact ⟨c, rest, hw.isDigits.2 c List.mem_cons_self, rfl⟩
  cases h with
  | int hw =>
    obtain ⟨c, rest, hc, rfl⟩ := hwhole hw
    exact ⟨c, rest, hc, .inl rfl⟩
  | negativeInt hw =>
    obtain ⟨c, rest, hc, rfl⟩ := hwhole hw
    exact ⟨c, rest, hc, .inr rfl⟩
  | real h =>
    obtain ⟨c, rest, rfl, hc⟩ := h.exists_cons
    exact ⟨c, rest, hc, .inl rfl⟩
  | negativeReal h =>
    obtain ⟨c, rest, rfl, hc⟩ := h.exists_cons
    exact ⟨c, rest, hc, .inr rfl⟩

theorem valueOfNumber? (h : NumberText l v) : MflFrontend.valueOfNumber? l = some v := by
  unfold MflFrontend.valueOfNumber?
  cases h with
  | int hw => rw [integerOfChars?_digits hw.isDigits]
  | negativeInt hw => rw [integerOfChars?_minus hw.isDigits]
  | real h =>
    obtain ⟨c, hc, hdigit, hminus⟩ := h.exists_mark
    obtain ⟨first, rest, hcons, hfirst⟩ := h.exists_cons
    have hread := Double.magnitudeOfChars?_realText h
    rw [integerOfChars?_eq_none hc hdigit hminus, hcons, Double.ofText?_ofList, ← hcons, hread]
    · rfl
    · rintro rfl
      cases hfirst
    · rintro rfl
      cases hfirst
  | @negativeReal l n h =>
    obtain ⟨c, hc, hdigit, hminus⟩ := h.exists_mark
    have hread : Double.ofText? (String.ofList ('-' :: l)) = some n.closest.neg := by
      unfold Double.ofText?
      rw [String.toList_ofList]
      simp only [Double.magnitudeOfChars?_realText h, Option.map_some]
    rw [integerOfChars?_eq_none (List.mem_cons_of_mem _ hc) hdigit hminus, hread]
    rfl

/-- The text of a number tells its value. -/
theorem unique {w : Value} (h : NumberText l v) (h' : NumberText l w) : v = w := by
  have hread := h.valueOfNumber?
  rw [h'.valueOfNumber?] at hread
  exact (Option.some.inj hread).symm

end NumberText

/-! ## What the first character tells -/

/-- What the first character of a document tells of it. -/
inductive DocumentSort where
  /-- It is the missing value. -/
  | null
  /-- It is this truth value. -/
  | truth (b : Bool)
  /-- It is a number. -/
  | number
  /-- It is a text. -/
  | text
  /-- It is a list. -/
  | list
  /-- It is a record. -/
  | record
  deriving DecidableEq

/-- What the first character tells, if a document can start with it. -/
def sort? (c : Char) : Option DocumentSort :=
  if c.isDigit || c == '-' then some .number
  else
    [('n', DocumentSort.null), ('t', .truth true), ('f', .truth false), (doubleQuote, .text),
      ('[', .list), ('\x7b', .record)].lookup c

/-- What its first character tells of a document. -/
def Document.sort : Document → DocumentSort
  | value .none => .null
  | value (.bool b) => .truth b
  | value (.int _) => .number
  | value (.real _) => .number
  | value (.text _) => .text
  | list _ => .list
  | record _ => .record

theorem sort?_of_isDigit {c : Char} (h : c.isDigit = true) : sort? c = some .number := by
  unfold sort?
  rw [h, Bool.true_or, if_pos rfl]

/-- The text starts neither with a blank nor with the closing bracket. -/
def StartsElement (closing : Char) (cs : List Char) : Prop :=
  ∃ c more, cs = c :: more ∧ isJsonBlank c = false ∧ c ≠ closing

/-- No document starts with a blank or with the bracket that closes a list. -/
theorem not_blank_of_sort {c : Char} {o : DocumentSort} (h : sort? c = some o) :
    isJsonBlank c = false ∧ c ≠ ']' := by
  constructor
  · refine Bool.eq_false_iff.mpr fun hblank => ?_
    rcases isJsonBlank_cases hblank with rfl | rfl | rfl | rfl <;> cases h
  · rintro rfl
    cases h

theorem NumberText.sort {l : List Char} {v : Value} (h : NumberText l v) :
    (Document.value v).sort = .number := by
  cases h <;> rfl

theorem NumberText.exists_sort {l : List Char} {v : Value} (h : NumberText l v) :
    ∃ c more, l = c :: more ∧ sort? c = some .number := by
  obtain ⟨c, rest, hc, rfl | rfl⟩ := h.exists_digit
  · exact ⟨c, _, rfl, sort?_of_isDigit hc⟩
  · exact ⟨'-', _, rfl, rfl⟩

/-- The first character of a document tells what it has to tell. -/
theorem ReadsJson.exists_sort {M : List Nat → String → Prop} {cs r : List Char} {d : Document}
    (h : ReadsJson M cs d r) : ∃ c more, cs = c :: more ∧ sort? c = some d.sort := by
  cases h with
  | number h =>
    obtain ⟨c, more, rfl, hc⟩ := h.exists_sort
    exact ⟨c, _, rfl, h.sort ▸ hc⟩
  | _ => exact ⟨_, _, rfl, rfl⟩

/-- The text starts with any number of elements and the closing bracket, and goes on with the
rest. -/
def Enclosed {α : Type} (E : List Char → α → List Char → Prop) (closing : Char) (cs : List Char)
    (as : List α) (r : List Char) : Prop :=
  as = [] ∧ Blanks cs (closing :: r) ∨ Series E closing cs as r

namespace ReadsJson

variable {M : List Nat → String → Prop} {cs r : List Char} {c : Char} {d : Document}

theorem of_items {items : List Document} (h : Enclosed (ReadsJson M) ']' cs items r) :
    ReadsJson M ('[' :: cs) (.list items) r := by
  rcases h with ⟨rfl, h⟩ | h
  · exact .emptyList h
  · exact .list h

theorem of_fields {fields : List (String × Document)}
    (h : Enclosed (Member M (ReadsJson M)) '\x7d' cs fields r) :
    ReadsJson M ('\x7b' :: cs) (.record fields) r := by
  rcases h with ⟨rfl, h⟩ | h
  · exact .emptyRecord h
  · exact .record h

/-- A document that starts with a digit or a sign is a number. -/
theorem number_inv (h : ReadsJson M (c :: cs) d r) (hc : sort? c = some .number) :
    ∃ l v, c :: cs = l ++ r ∧ NumberText l v ∧ d = .value v := by
  obtain ⟨_, _, ⟨⟩, hsort⟩ := h.exists_sort
  rw [hc] at hsort
  generalize htext : c :: cs = text at h
  cases h with
  | number h => exact ⟨_, _, rfl, h, rfl⟩
  | _ => cases hsort

/-- A document that starts with a double quote is a string. -/
theorem string_inv (h : ReadsJson M (doubleQuote :: cs) d r) :
    ∃ us s, StringRest cs us r ∧ M us s ∧ d = .value (.text s) := by
  obtain ⟨_, _, ⟨⟩, hsort⟩ := h.exists_sort
  generalize htext : doubleQuote :: cs = text at h
  cases h with
  | number h =>
    rw [h.sort] at hsort
    cases hsort
  | string h hunits =>
    cases htext
    exact ⟨_, _, h, hunits, rfl⟩
  | _ => cases hsort

/-- A document that starts with a square bracket is a list. -/
theorem list_inv (h : ReadsJson M ('[' :: cs) d r) :
    ∃ items, Enclosed (ReadsJson M) ']' cs items r ∧ d = .list items := by
  obtain ⟨_, _, ⟨⟩, hsort⟩ := h.exists_sort
  generalize htext : '[' :: cs = text at h
  cases h with
  | number h =>
    rw [h.sort] at hsort
    cases hsort
  | emptyList h =>
    cases htext
    exact ⟨_, .inl ⟨rfl, h⟩, rfl⟩
  | list h =>
    cases htext
    exact ⟨_, .inr h, rfl⟩
  | _ => cases hsort

/-- A document that starts with a brace is a record. -/
theorem record_inv (h : ReadsJson M ('\x7b' :: cs) d r) :
    ∃ fields, Enclosed (Member M (ReadsJson M)) '\x7d' cs fields r ∧ d = .record fields := by
  obtain ⟨_, _, ⟨⟩, hsort⟩ := h.exists_sort
  generalize htext : '\x7b' :: cs = text at h
  cases h with
  | number h =>
    rw [h.sort] at hsort
    cases hsort
  | emptyRecord h =>
    cases htext
    exact ⟨_, .inl ⟨rfl, h⟩, rfl⟩
  | record h =>
    cases htext
    exact ⟨_, .inr h, rfl⟩
  | _ => cases hsort

/-- A document that starts with a word is what the word says. -/
theorem word_inv {v : Value} (hv : v = .none ∨ ∃ b, v = .bool b)
    (h : ReadsJson M (v.json ++ cs) d r) : d = .value v ∧ r = cs := by
  have hword : ∀ {c : Char} {w : List Char} {v : Value}, v.json = c :: w →
      sort? c = some (Document.value v).sort → ReadsJson M (v.json ++ cs) d r →
      (Document.value v).sort = d.sort := by
    intro c w v hjson hc h
    obtain ⟨_, _, hcons, hsort⟩ := h.exists_sort
    rw [hjson] at hcons
    cases hcons
    rw [hc] at hsort
    exact Option.some.inj hsort
  rcases hv with rfl | ⟨_ | _, rfl⟩
  all_goals
    have hsort := hword rfl rfl h
    generalize htext : Value.json _ ++ cs = text at h
    cases h with
    | number h =>
      rw [h.sort] at hsort
      cases hsort
    | _ => cases htext <;> exact ⟨rfl, rfl⟩

end ReadsJson

end MflFrontend
