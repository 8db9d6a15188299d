import MflFrontend.Proofs.Json.Grammar

/-!
# What is written as JSON

A document without infinite numbers is written as JSON, and the text says this document and no other
one. A document with an infinite number is not written as JSON at all, because the name of such a
number is not a part of any JSON text.

Both are proved by induction on the document, with what stands behind its text generalised. The text
in front of a rest is compared with a derivation that starts with the same characters and leaves
some rest; since neither rest goes on with a number, the two rests are the same.
-/

namespace MflFrontend

/-! ## Strings -/

theorem utf16_inj {c d : Char} {us vs : List Nat} (h : utf16 c ++ us = utf16 d ++ vs) :
    c = d ∧ us = vs := by
  have hc := scalar_cases c
  have hd := scalar_cases d
  have hext : c.toNat = d.toNat → c = d := fun h => by
    rw [← Char.ofNat_toNat c, h, Char.ofNat_toNat]
  unfold utf16 at h
  split at h
  · split at h
    · injection h with hhead htail
      exact ⟨hext hhead, htail⟩
    · injection h with hhead
      omega
  · split at h
    · injection h with hhead
      omega
    · injection h with hhead htail
      injection htail with hsecond htail
      exact ⟨hext (by omega), htail⟩

/-- Different texts have different units. -/
theorem units_injective {s t : String} (h : units s = units t) : s = t := by
  have hne : ∀ c, utf16 c ≠ [] := by
    intro c
    unfold utf16
    split <;> exact List.cons_ne_nil _ _
  exact String.toList_injective (flatMap_injective hne utf16_inj h)

theorem stringRest_escapeUnit {n : Nat} (hn : n < 0x10000) {cs r : List Char} {us : List Nat}
    (h : StringRest cs us r) : StringRest (escapeUnit n ++ cs) (n :: us) r := by
  have hcode := StringRest.code (length_hexDigits 4 (by decide) hn)
    (fun c hc => isSome_of_mem_hexDigits hc) h
  rwa [hexValue_hexDigits] at hcode

/-- A character is written as its units. -/
theorem stringRest_escape (c : Char) {cs r : List Char} {us : List Nat} (h : StringRest cs us r) :
    StringRest (jsonEscape c ++ cs) (utf16 c ++ us) r := by
  have hshort : ∀ letter c, (letter, c) ∈ shortEscapes →
      StringRest (['\\', letter] ++ cs) (utf16 c ++ us) r := fun _ _ hletter => .short hletter h
  have hscalar := scalar_cases c
  unfold jsonEscape
  split
  · next hc => rcases hc with rfl | rfl <;> exact hshort _ _ (by decide)
  · next hplain =>
    obtain ⟨hquote, hescape⟩ := not_or.mp hplain
    split
    · next hc => exact hc ▸ hshort 'n' '\n' (by decide)
    · split
      · next hc => exact hc ▸ hshort 'r' '\r' (by decide)
      · split
        · next hc => exact hc ▸ hshort 't' '\t' (by decide)
        · split
          · next hc => exact hc ▸ hshort 'b' '\x08' (by decide)
          · split
            · next hc => exact hc ▸ hshort 'f' '\x0c' (by decide)
            · split
              · next hc => exact .plain hc.1 hquote hescape h
              · unfold utf16
                split
                · next hunit => exact stringRest_escapeUnit hunit h
                · rw [List.append_assoc]
                  exact stringRest_escapeUnit (by omega) (stringRest_escapeUnit (by omega) h)

/-- What is written behind the opening quote has the units of the text. -/
theorem stringRest_written (s : String) (r : List Char) :
    StringRest (s.toList.flatMap jsonEscape ++ doubleQuote :: r) (units s) r := by
  unfold units
  induction s.toList with
  | nil => exact .close
  | cons c cs ih =>
    rw [List.flatMap_cons, List.flatMap_cons, List.append_assoc]
    exact stringRest_escape c ih

/-! ## Numbers -/

theorem numberText_integer (n : Int) : NumberText (integerDigits n) (.int n) := by
  have hwhole := isWhole_decimalDigits n.natAbs
  unfold integerDigits
  split
  · next hn =>
    have hvalue : -(n.natAbs : Int) = n := by omega
    have htext := NumberText.negativeInt hwhole
    rwa [ofDecimalDigits_decimalDigits, hvalue] at htext
  · next hn =>
    have hvalue : (n.natAbs : Int) = n := by omega
    have htext := NumberText.int hwhole
    rwa [ofDecimalDigits_decimalDigits, hvalue] at htext

theorem numberText_double {d : Double} (hd : d.isInfinite = false) :
    NumberText d.text.toList (.real d) := by
  obtain ⟨m, htext, hm⟩ := Double.realText_magnitude hd
  rw [Double.text, String.toList_ofList]
  split
  · next hsign =>
    have hvalue : m.closest.neg = d := Double.ext_rank hsign.symm hm
    have hnumber := NumberText.negativeReal htext
    rwa [hvalue] at hnumber
  · next hsign =>
    have hvalue : m.closest = d := Double.ext_rank (Bool.eq_false_iff.mpr hsign).symm hm
    have hnumber := NumberText.real htext
    rwa [hvalue] at hnumber

/-- The rest does not go on with a number. -/
def EndsNumber (cs : List Char) : Prop := ∀ c, cs.head? = some c → isNumberChar c = false

theorem Blanks.endsNumber {cs r : List Char} {c : Char} (h : Blanks cs (c :: r))
    (hc : isNumberChar c = false) : EndsNumber cs := by
  cases h with
  | stop => exact fun d hd => Option.some.inj hd ▸ hc
  | skip hblank _ => exact fun d hd => Option.some.inj hd ▸ isNumberChar_of_blank hblank

/-- Where a number ends is told by what stands behind it. -/
theorem NumberText.unique_rest {l l' r r' : List Char} {v w : Value} (h : NumberText l v)
    (h' : NumberText l' w) (hr : EndsNumber r) (hr' : EndsNumber r') (heq : l ++ r = l' ++ r') :
    v = w ∧ r = r' := by
  have hspan := congrArg (List.span MflFrontend.isNumberChar) heq
  rw [span_exact h.isNumberChar hr, span_exact h'.isNumberChar hr'] at hspan
  obtain ⟨rfl, rfl⟩ := Prod.mk.inj hspan
  exact ⟨h.unique h', rfl⟩

/-! ## Documents -/

namespace Document

/-- Induction on the documents that a document is made of. -/
@[elab_as_elim]
theorem inductionOnParts {P : Document → Prop} (value : ∀ v, P (.value v))
    (list : ∀ items, (∀ d ∈ items, P d) → P (.list items))
    (record : ∀ fields, (∀ f ∈ fields, P (Prod.snd f)) → P (.record fields)) : ∀ d, P d
  | .value v => value v
  | .list items => list items fun d _ => inductionOnParts value list record d
  | .record fields => record fields fun f _ => inductionOnParts value list record f.2
termination_by d => sizeOf d
decreasing_by
  · simp only [Document.list.sizeOf_spec]
    have := List.sizeOf_lt_of_mem ‹d ∈ items›
    omega
  · simp only [Document.record.sizeOf_spec]
    have := List.sizeOf_lt_of_mem ‹f ∈ fields›
    obtain ⟨name, d⟩ := f
    simp only [Prod.mk.sizeOf_spec] at this
    show sizeOf d < _
    omega

/-- An infinite number is a part of the document. -/
inductive HasInfinity : Document → Prop
  | here {x : Double} (hx : x.isInfinite = true) : HasInfinity (.value (.real x))
  | item {items : List Document} {d : Document} (hd : d ∈ items) (h : HasInfinity d) :
      HasInfinity (.list items)
  | field {fields : List (String × Document)} {f : String × Document} (hf : f ∈ fields)
      (h : HasInfinity f.2) : HasInfinity (.record fields)

/-! ### Elements in a row -/

/-- The elements behind the first one, each in front of what follows it, and the closing bracket. -/
def seriesBefore {α : Type} (write : List Char → α → List Char) (closing : Char) (level : Nat)
    (rest : List Char) : List α → List Char
  | [] => newLine level ++ closing :: rest
  | a :: as =>
    ',' :: newLine (level + 1) ++ write (seriesBefore write closing level rest as) a

/-- A field on the given level, in front of `rest`. -/
def fieldBefore (level : Nat) (rest : List Char) (f : String × Document) : List Char :=
  jsonString f.1 ++ ':' :: ' ' :: f.2.jsonBefore level rest

theorem itemsBefore_eq (level : Nat) (rest : List Char) (items : List Document) :
    itemsBefore level rest items =
      seriesBefore (fun rest d => d.jsonBefore (level + 1) rest) ']' level rest items := by
  induction items with
  | nil => rw [itemsBefore, seriesBefore]
  | cons item items ih => rw [itemsBefore, seriesBefore, ih]

theorem fieldsBefore_eq (level : Nat) (rest : List Char) (fields : List (String × Document)) :
    fieldsBefore level rest fields =
      seriesBefore (fieldBefore (level + 1)) '\x7d' level rest fields := by
  induction fields with
  | nil => rw [fieldsBefore, seriesBefore]
  | cons f fields ih => rw [fieldsBefore, seriesBefore, fieldBefore, ih, List.append_assoc]

/-- The elements behind the opening bracket, and the closing one. -/
def enclosedBefore {α : Type} (write : List Char → α → List Char) (closing : Char) (level : Nat)
    (rest : List Char) : List α → List Char
  | [] => closing :: rest
  | a :: as => newLine (level + 1) ++ write (seriesBefore write closing level rest as) a

theorem jsonBefore_list (level : Nat) (rest : List Char) (items : List Document) :
    (list items).jsonBefore level rest = '[' ::
      enclosedBefore (fun rest d => d.jsonBefore (level + 1) rest) ']' level rest items := by
  cases items with
  | nil => rw [jsonBefore, enclosedBefore]
  | cons item items =>
    rw [jsonBefore, itemsBefore_eq, enclosedBefore]
    rfl

theorem jsonBefore_record (level : Nat) (rest : List Char) (fields : List (String × Document)) :
    (record fields).jsonBefore level rest = '\x7b' ::
      enclosedBefore (fieldBefore (level + 1)) '\x7d' level rest fields := by
  cases fields with
  | nil => rw [jsonBefore, enclosedBefore]
  | cons f fields =>
    rw [jsonBefore, fieldsBefore_eq, enclosedBefore, fieldBefore]
    simp

theorem blanks_newLine (level : Nat) (cs : List Char) : Blanks (newLine level ++ cs) cs := by
  have hindent : ∀ n, Blanks (List.replicate n ' ' ++ cs) cs := by
    intro n
    induction n with
    | zero => exact .stop
    | succ n ih => exact .skip rfl ih
  exact .skip rfl (hindent _)

section

variable {α : Type} {E : List Char → α → List Char → Prop} {write : List Char → α → List Char}
  {closing : Char} {level : Nat} {rest : List Char}

/-- Elements that are written as what they are make up a series. -/
theorem series_written {a : α} {as : List α}
    (hwrite : ∀ b ∈ a :: as, ∀ rest, E (write rest b) b rest) :
    Series E closing (newLine (level + 1) ++ write (seriesBefore write closing level rest as) a)
      (a :: as) rest := by
  induction as generalizing a with
  | nil =>
    exact .last (blanks_newLine _ _) (hwrite a List.mem_cons_self _) (blanks_newLine _ _)
  | cons b bs ih =>
    obtain ⟨ha, hbs⟩ := List.forall_mem_cons.mp hwrite
    exact .more (blanks_newLine _ _) (ha _) .stop (ih hbs)

theorem enclosed_written {as : List α} (hwrite : ∀ b ∈ as, ∀ rest, E (write rest b) b rest) :
    Enclosed E closing (enclosedBefore write closing level rest as) as rest := by
  cases as with
  | nil => exact .inl ⟨rfl, .stop⟩
  | cons a as => exact .inr (series_written hwrite)

theorem endsNumber_seriesBefore (as : List α) :
    EndsNumber (seriesBefore write closing level rest as) := by
  cases as with
  | nil => exact fun c hc => Option.some.inj hc ▸ rfl
  | cons a as => exact fun c hc => Option.some.inj hc ▸ rfl

/-- What is written of `a` in front of a rest that does not go on with a number is read only up to
this rest, only if `a` is legal, and as `a` itself where reading is faithful. -/
def Told (E : List Char → α → List Char → Prop) (write : List Char → α → List Char)
    (legal : α → Prop) (faithful : Prop) (a : α) : Prop :=
  ∀ {rest b r}, E (write rest a) b r → EndsNumber rest → EndsNumber r →
    legal a ∧ r = rest ∧ (faithful → b = a)

variable {legal : α → Prop} {faithful : Prop}

section

variable (hclosing : isJsonBlank closing = false) (hnumber : isNumberChar closing = false)
  (hcomma : closing ≠ ',') (hreads : ∀ {cs a r}, E cs a r → StartsElement closing cs)
  (hwrites : ∀ rest a, StartsElement closing (write rest a))
include hclosing hnumber hcomma hreads hwrites

/-- A series that starts with written elements consists of them. -/
theorem series_told {a : α} {as : List α} (htold : ∀ b ∈ a :: as, Told E write legal faithful b)
    {bs : List α} {r : List Char} (h : Series E closing
      (newLine (level + 1) ++ write (seriesBefore write closing level rest as) a) bs r) :
    (∀ b ∈ a :: as, legal b) ∧ r = rest ∧ (faithful → bs = a :: as) := by
  have hfirst : ∀ {rest cs r : List Char} {a b : α},
      Blanks (newLine (level + 1) ++ write rest a) cs → E cs b r → E (write rest a) b r := by
    intro rest cs r a b hblanks hb
    obtain ⟨c, more, rfl, hc, -⟩ := hreads hb
    obtain ⟨d, more', hwrite, hd, -⟩ := hwrites rest a
    have hstart := blanks_newLine (level + 1) (write rest a)
    rw [hwrite] at hblanks hstart ⊢
    rwa [hstart.unique hblanks hd hc]
  induction as generalizing a bs with
  | nil =>
    cases h with
    | last hbefore hb hafter =>
      obtain ⟨hlegal, rfl, heq⟩ := htold a List.mem_cons_self (hfirst hbefore hb)
        (endsNumber_seriesBefore []) (hafter.endsNumber hnumber)
      have hclose := hafter.unique (blanks_newLine level (closing :: rest)) hclosing hclosing
      refine ⟨List.forall_mem_singleton.mpr hlegal, (List.cons.inj hclose).2, fun hfaithful => ?_⟩
      rw [heq hfaithful]
    | more hbefore hb hafter _ =>
      obtain ⟨-, rfl, -⟩ := htold a List.mem_cons_self (hfirst hbefore hb)
        (endsNumber_seriesBefore []) (hafter.endsNumber rfl)
      have hclose := hafter.unique (blanks_newLine level (closing :: rest)) rfl hclosing
      exact absurd (List.cons.inj hclose).1.symm hcomma
  | cons a' as ih =>
    obtain ⟨htolda, htold⟩ := List.forall_mem_cons.mp htold
    cases h with
    | last hbefore hb hafter =>
      obtain ⟨-, rfl, -⟩ := htolda (hfirst hbefore hb) (endsNumber_seriesBefore (a' :: as))
        (hafter.endsNumber hnumber)
      have hclose := hafter.unique .stop hclosing rfl
      exact absurd (List.cons.inj hclose).1 hcomma
    | more hbefore hb hafter hmore =>
      obtain ⟨hlegal, rfl, heq⟩ := htolda (hfirst hbefore hb) (endsNumber_seriesBefore (a' :: as))
        (hafter.endsNumber rfl)
      cases hafter.unique .stop rfl rfl
      obtain ⟨hlegals, hrest, heqs⟩ := ih htold hmore
      refine ⟨List.forall_mem_cons.mpr ⟨hlegal, hlegals⟩, hrest, fun hfaithful => ?_⟩
      rw [heq hfaithful, heqs hfaithful]

/-- Written elements between brackets are told. -/
theorem enclosed_told {as : List α} (htold : ∀ b ∈ as, Told E write legal faithful b) {bs : List α}
    {r : List Char} (h : Enclosed E closing (enclosedBefore write closing level rest as) bs r) :
    (∀ b ∈ as, legal b) ∧ r = rest ∧ (faithful → bs = as) := by
  cases as with
  | nil =>
    rcases h with ⟨rfl, h⟩ | h
    · cases h.unique .stop hclosing hclosing
      exact ⟨nofun, rfl, fun _ => rfl⟩
    · -- no element starts with the closing bracket
      have hstart : ∀ {cs a r}, Blanks (closing :: rest) cs → ¬ E cs a r := by
        intro cs a r hblanks ha
        obtain ⟨c, more, rfl, hc, hne⟩ := hreads ha
        exact hne (List.cons.inj (hblanks.unique .stop hc hclosing)).1
      cases h with
      | last hbefore ha _ => exact absurd ha (hstart hbefore)
      | more hbefore ha _ _ => exact absurd ha (hstart hbefore)
  | cons a as =>
    rcases h with ⟨-, h⟩ | h
    · obtain ⟨c, more, hwrite, hc, hne⟩ := hwrites (seriesBefore write closing level rest as) a
      have hstart := blanks_newLine (level + 1) (write (seriesBefore write closing level rest as) a)
      rw [enclosedBefore] at h
      rw [hwrite] at h hstart
      exact absurd (List.cons.inj (hstart.unique h hc hclosing)).1 hne
    · exact series_told hclosing hnumber hcomma hreads hwrites htold h

end

end

/-! ### Whole documents -/

variable {M : List Nat → String → Prop}

theorem jsonString_append (s : String) (rest : List Char) : jsonString s ++ rest =
    doubleQuote :: (s.toList.flatMap jsonEscape ++ doubleQuote :: rest) := by
  simp [jsonString]

/-- A document without infinite numbers is read from its text. -/
theorem reads_written (hM : ∀ s, M (units s) s) {d : Document} (hd : ¬ d.HasInfinity) (level : Nat)
    (rest : List Char) : ReadsJson M (d.jsonBefore level rest) d rest := by
  induction d using inductionOnParts generalizing level rest with
  | value v =>
    rw [jsonBefore]
    cases v with
    | none => exact .null
    | bool b =>
      cases b with
      | true => exact .yes
      | false => exact .no
    | int n => exact .number (numberText_integer n)
    | real x =>
      have hx : x.isInfinite = false := Bool.eq_false_iff.mpr fun hx => hd (.here hx)
      rw [Value.json, jsonNumber, if_neg (Bool.eq_false_iff.mp hx)]
      exact .number (numberText_double hx)
    | text s =>
      rw [Value.json, jsonString_append]
      exact .string (stringRest_written s rest) (hM s)
  | list items ih =>
    rw [jsonBefore_list]
    refine .of_items (enclosed_written fun d hitem rest => ?_)
    exact ih d hitem (fun h => hd (.item hitem h)) _ rest
  | record fields ih =>
    rw [jsonBefore_record]
    refine .of_fields (enclosed_written fun f hf rest => ?_)
    rw [fieldBefore, jsonString_append]
    exact .mk (stringRest_written _ _) (hM _) .stop (.skip rfl .stop)
      (ih f hf (fun h => hd (.field hf h)) _ rest)

/-- An infinite number cannot be read from its name. -/
theorem not_reads_infinity {x : Double} (hx : x.isInfinite = true) {rest r : List Char}
    {d : Document} : ¬ ReadsJson M (jsonNumber x ++ rest) d r := by
  intro h
  rw [jsonNumber, if_pos hx] at h
  cases hsign : x.negative with
  | true =>
    rw [hsign] at h
    obtain ⟨l, v, hl, hnumber, -⟩ := h.number_inv rfl
    obtain ⟨c, more, hc, rfl | rfl⟩ := hnumber.exists_digit
    · rw [← (List.cons.inj hl).1] at hc
      cases hc
    · rw [← (List.cons.inj (List.cons.inj hl).2).1] at hc
      cases hc
  | false =>
    rw [hsign] at h
    obtain ⟨c, more, hcons, hsort⟩ := h.exists_sort
    cases hcons
    cases hsort

/-- A written document starts neither with a blank nor with a bracket that closes a list. -/
theorem startsElement_jsonBefore (level : Nat) (rest : List Char) (d : Document) :
    StartsElement ']' (d.jsonBefore level rest) := by
  have hnumber : ∀ {l : List Char} {v : Value}, NumberText l v → StartsElement ']' (l ++ rest) := by
    intro l v h
    obtain ⟨c, more, rfl, hc⟩ := h.exists_sort
    exact ⟨c, _, rfl, not_blank_of_sort hc⟩
  match d with
  | .list items =>
    rw [jsonBefore_list]
    exact ⟨_, _, rfl, rfl, by decide⟩
  | .record fields =>
    rw [jsonBefore_record]
    exact ⟨_, _, rfl, rfl, by decide⟩
  | .value v =>
    rw [jsonBefore]
    match v with
    | .none | .bool true | .bool false | .text s => exact ⟨_, _, rfl, rfl, by decide⟩
    | .int n => exact hnumber (numberText_integer n)
    | .real x =>
      rw [Value.json, jsonNumber]
      split
      · cases x.negative <;> exact ⟨_, _, rfl, rfl, by decide⟩
      · next hx => exact hnumber (numberText_double (Bool.eq_false_iff.mpr hx))

theorem startsElement_of_reads {cs r : List Char} {d : Document} (h : ReadsJson M cs d r) :
    StartsElement ']' cs := by
  obtain ⟨c, more, hcons, hsort⟩ := h.exists_sort
  exact ⟨c, more, hcons, not_blank_of_sort hsort⟩

theorem startsElement_of_member {cs r : List Char} {f : String × Document}
    (h : Member M (ReadsJson M) cs f r) : StartsElement '\x7d' cs := by
  cases h
  exact ⟨_, _, rfl, rfl, by decide⟩

theorem startsElement_fieldBefore (level : Nat) (rest : List Char) (f : String × Document) :
    StartsElement '\x7d' (fieldBefore level rest f) := by
  rw [fieldBefore, jsonString_append]
  exact ⟨_, _, rfl, rfl, by decide⟩

/-- The units of a text are not taken for another text. -/
def Faithful (M : List Nat → String → Prop) : Prop := ∀ s t, M (units s) t → t = s

theorem number_told {l rest r : List Char} {v : Value} {d : Document} (hl : NumberText l v)
    (h : ReadsJson M (l ++ rest) d r) (hrest : EndsNumber rest) (hr : EndsNumber r) :
    d = .value v ∧ r = rest := by
  obtain ⟨c, more, rfl, hc⟩ := hl.exists_sort
  obtain ⟨l', w, heq, hl', rfl⟩ := h.number_inv hc
  obtain ⟨rfl, rfl⟩ := hl.unique_rest hl' hrest hr heq
  exact ⟨rfl, rfl⟩

/-- A document that stands on the given level is told by its text, and is read only without infinite
numbers. -/
def IsTold (M : List Nat → String → Prop) (level : Nat) (d : Document) : Prop :=
  Told (ReadsJson M) (fun rest d => d.jsonBefore level rest) (¬ ·.HasInfinity) (Faithful M) d

theorem value_told (v : Value) (level : Nat) : IsTold M level (.value v) := by
  intro rest d r h hrest hr
  simp only [jsonBefore] at h
  cases v with
  | none =>
    obtain ⟨rfl, rfl⟩ := h.word_inv (.inl rfl)
    exact ⟨nofun, rfl, fun _ => rfl⟩
  | bool b =>
    obtain ⟨rfl, rfl⟩ := h.word_inv (.inr ⟨b, rfl⟩)
    exact ⟨nofun, rfl, fun _ => rfl⟩
  | int n =>
    obtain ⟨rfl, rfl⟩ := number_told (numberText_integer n) h hrest hr
    exact ⟨nofun, rfl, fun _ => rfl⟩
  | real x =>
    cases hx : x.isInfinite with
    | true => exact absurd h (not_reads_infinity hx)
    | false =>
      rw [Value.json, jsonNumber, if_neg (Bool.eq_false_iff.mp hx)] at h
      obtain ⟨rfl, rfl⟩ := number_told (numberText_double hx) h hrest hr
      refine ⟨fun hinfinity => ?_, rfl, fun _ => rfl⟩
      cases hinfinity with
      | here hx' =>
        rw [hx] at hx'
        cases hx'
  | text s =>
    rw [Value.json, jsonString_append] at h
    obtain ⟨us, t, hstring, hunits, rfl⟩ := h.string_inv
    obtain ⟨rfl, rfl⟩ := (stringRest_written s rest).unique hstring
    exact ⟨nofun, rfl, fun hfaithful => by rw [hfaithful s t hunits]⟩

/-- A field is told if what it holds is. -/
theorem field_told {f : String × Document} {level : Nat} (h : IsTold M level f.2) :
    Told (Member M (ReadsJson M)) (fieldBefore level) (fun f => ¬ f.2.HasInfinity) (Faithful M)
      f := by
  intro rest g r hg hrest hr
  generalize htext : fieldBefore level rest f = text at hg
  rw [fieldBefore, jsonString_append] at htext
  cases hg with
  | mk hname hunits hbefore hafter hd =>
    injection htext with _ htext
    subst htext
    obtain ⟨rfl, rfl⟩ := (stringRest_written _ _).unique hname
    cases hbefore.unique .stop rfl rfl
    have hvalue : Blanks (' ' :: f.2.jsonBefore level rest) (f.2.jsonBefore level rest) :=
      .skip rfl .stop
    obtain ⟨c, more, hstart, hc, -⟩ := startsElement_jsonBefore level rest f.2
    obtain ⟨c', more', rfl, hc', -⟩ := startsElement_of_reads hd
    rw [hstart] at hafter hvalue
    rw [← hvalue.unique hafter hc hc', ← hstart] at hd
    obtain ⟨hlegal, hr, heq⟩ := h hd hrest hr
    exact ⟨hlegal, hr, fun hfaithful => Prod.ext (hfaithful _ _ hunits) (heq hfaithful)⟩

/-- Every written document is told by its text, and is read only without infinite numbers. -/
theorem json_told (d : Document) (level : Nat) : IsTold M level d := by
  induction d using inductionOnParts generalizing level with
  | value v => exact value_told v level
  | list items ih =>
    intro rest e r h hrest hr
    simp only [jsonBefore_list] at h
    obtain ⟨es, henclosed, rfl⟩ := h.list_inv
    obtain ⟨hlegal, hr, heq⟩ := enclosed_told rfl rfl (by decide) startsElement_of_reads
      (startsElement_jsonBefore _) (fun d hd => ih d hd _) henclosed
    refine ⟨fun hinfinity => ?_, hr, fun hfaithful => by rw [heq hfaithful]⟩
    cases hinfinity with
    | item hd h => exact hlegal _ hd h
  | record fields ih =>
    intro rest e r h hrest hr
    simp only [jsonBefore_record] at h
    obtain ⟨fs, henclosed, rfl⟩ := h.record_inv
    obtain ⟨hlegal, hr, heq⟩ := enclosed_told rfl rfl (by decide) startsElement_of_member
      (startsElement_fieldBefore _) (fun f hf => field_told (ih f hf _)) henclosed
    refine ⟨fun hinfinity => ?_, hr, fun hfaithful => by rw [heq hfaithful]⟩
    cases hinfinity with
    | field hf h => exact hlegal _ hf h

/-! ### Documents with a line break behind them -/

theorem seriesBefore_append {α : Type} {write : List Char → α → List Char} {closing : Char}
    {level : Nat} {rest more : List Char} {as : List α}
    (h : ∀ a ∈ as, ∀ rest, write rest a ++ more = write (rest ++ more) a) :
    seriesBefore write closing level rest as ++ more =
      seriesBefore write closing level (rest ++ more) as := by
  induction as with
  | nil => rw [seriesBefore, seriesBefore, List.append_assoc, List.cons_append]
  | cons a as ih =>
    obtain ⟨ha, has⟩ := List.forall_mem_cons.mp h
    rw [seriesBefore, seriesBefore, List.append_assoc, ha, ih has]

theorem enclosedBefore_append {α : Type} {write : List Char → α → List Char} {closing : Char}
    {level : Nat} {rest more : List Char} {as : List α}
    (h : ∀ a ∈ as, ∀ rest, write rest a ++ more = write (rest ++ more) a) :
    enclosedBefore write closing level rest as ++ more =
      enclosedBefore write closing level (rest ++ more) as := by
  cases as with
  | nil => rfl
  | cons a as =>
    obtain ⟨ha, has⟩ := List.forall_mem_cons.mp h
    rw [enclosedBefore, enclosedBefore, List.append_assoc, ha, seriesBefore_append has]

/-- What stands behind a text is a part of its rest. -/
theorem jsonBefore_append (d : Document) (level : Nat) (rest more : List Char) :
    d.jsonBefore level rest ++ more = d.jsonBefore level (rest ++ more) := by
  induction d using inductionOnParts generalizing level rest with
  | value v => rw [jsonBefore, jsonBefore, List.append_assoc]
  | list items ih =>
    rw [jsonBefore_list, jsonBefore_list, List.cons_append,
      enclosedBefore_append fun d hd rest => ih d hd _ rest]
  | record fields ih =>
    rw [jsonBefore_record, jsonBefore_record, List.cons_append]
    rw [enclosedBefore_append fun f hf rest => ?_]
    rw [fieldBefore, fieldBefore, List.append_assoc, List.cons_append, List.cons_append, ih f hf]

theorem toList_json_line (d : Document) : (d.json ++ "\n").toList = d.jsonBefore 0 ['\n'] := by
  have hfeed : "\n".toList = ['\n'] := by simp
  rw [String.toList_append, json, String.toList_ofList, hfeed, jsonBefore_append, List.nil_append]

/-- Without infinite numbers the line of a document is JSON, whatever units are taken for. -/
theorem jsonText_line (hM : ∀ s, M (units s) s) {d : Document} (hd : ¬ d.HasInfinity) :
    JsonText M (d.json ++ "\n") d := by
  rw [JsonText, toList_json_line]
  exact ⟨_, _, .stop, reads_written hM hd 0 ['\n'], .skip rfl .stop⟩

/-- The line of a document is JSON only without infinite numbers, and then says nothing else. -/
theorem line_told {d e : Document} (h : JsonText M (d.json ++ "\n") e) :
    ¬ d.HasInfinity ∧ (Faithful M → e = d) := by
  obtain ⟨cs, r, hbefore, he, hafter⟩ := h
  rw [toList_json_line] at hbefore
  have htext : cs = d.jsonBefore 0 ['\n'] := by
    obtain ⟨c, more, hwrite, hc, -⟩ := startsElement_jsonBefore 0 ['\n'] d
    obtain ⟨c', more', rfl, hc', -⟩ := startsElement_of_reads he
    rw [hwrite] at hbefore ⊢
    exact hbefore.unique .stop hc' hc
  have hrest : EndsNumber ['\n'] := fun c hc => Option.some.inj hc ▸ rfl
  have hend : EndsNumber r := by
    cases hafter with
    | stop => exact nofun
    | skip hblank _ => exact fun c hc => Option.some.inj hc ▸ isNumberChar_of_blank hblank
  subst htext
  obtain ⟨hlegal, -, heq⟩ := json_told d 0 he hrest hend
  exact ⟨hlegal, heq⟩

/-- The line of a document follows the grammar of JSON if and only if there is no infinite number in
it; and then it says the document and no other one. -/
theorem json_line (d : Document) : (IsJson (d.json ++ "\n") ↔ ¬ d.HasInfinity) ∧
    ∀ e, Says (d.json ++ "\n") e ↔ e = d ∧ ¬ d.HasInfinity := by
  have hfaithful : Faithful fun us s => us = units s := fun s t h => units_injective h.symm
  refine ⟨⟨fun ⟨e, he⟩ => (line_told he).1, fun hd => ⟨d, jsonText_line (fun _ => trivial) hd⟩⟩,
    fun e => ⟨fun he => ?_, ?_⟩⟩
  · obtain ⟨hd, heq⟩ := line_told he
    exact ⟨heq hfaithful, hd⟩
  · rintro ⟨rfl, hd⟩
    exact jsonText_line (fun _ => rfl) hd

end Document

end MflFrontend
