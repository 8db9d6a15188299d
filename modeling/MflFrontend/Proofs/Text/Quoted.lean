import Mathlib.Data.List.Basic
import MflFrontend.Text.Quoted

/-!
# Quoted texts tell the text

What stands between the quotes can be read one character at a time, because an escape says itself
how many characters belong to it. So no two texts are shown alike. No line feed is shown as it is, so
that a quoted text is always on one line.
-/

namespace MflFrontend

/-- Codes that tell where they end can be read one after the other. -/
theorem flatMap_injective {α β : Type} {code : α → List β} (hne : ∀ a, code a ≠ [])
    (hends : ∀ {a b : α} {r s : List β}, code a ++ r = code b ++ s → a = b ∧ r = s) {as bs : List α}
    (h : as.flatMap code = bs.flatMap code) : as = bs := by
  induction as generalizing bs with
  | nil =>
    cases bs with
    | nil => rfl
    | cons b bs =>
      rw [List.flatMap_nil, List.flatMap_cons] at h
      exact absurd (List.append_eq_nil_iff.mp h.symm).1 (hne b)
  | cons a as ih =>
    cases bs with
    | nil =>
      rw [List.flatMap_nil, List.flatMap_cons] at h
      exact absurd (List.append_eq_nil_iff.mp h).1 (hne a)
    | cons b bs =>
      rw [List.flatMap_cons, List.flatMap_cons] at h
      obtain ⟨rfl, hrest⟩ := hends h
      rw [ih hrest]

/-! ## Hexadecimal digits -/

/-- The value of a hexadecimal digit of either case. -/
def hexDigit? (c : Char) : Option Nat :=
  ['0', '1', '2', '3', '4', '5', '6', '7', '8', '9', 'a', 'b', 'c', 'd', 'e', 'f'].findIdx?
    (· == c.toLower)

/-- The number that hexadecimal digits stand for. -/
def hexValue (ds : List Char) : Nat := ds.foldl (fun n c => 16 * n + (hexDigit? c).getD 0) 0

theorem hexDigit?_digitChar : ∀ n < 16, hexDigit? n.digitChar = some n := by decide

theorem hexValue_concat (ds : List Char) (c : Char) :
    hexValue (ds ++ [c]) = 16 * hexValue ds + (hexDigit? c).getD 0 := by
  rw [hexValue, List.foldl_append]
  rfl

theorem hexValue_zeros_append (k : Nat) (ds : List Char) :
    hexValue (List.replicate k '0' ++ ds) = hexValue ds := by
  have hzero : (hexDigit? '0').getD 0 = 0 := rfl
  induction k with
  | zero => rfl
  | succ k ih =>
    rw [← ih, List.replicate_succ, List.cons_append, hexValue, List.foldl_cons, hzero]
    rfl

theorem hexValue_toDigits (n : Nat) : hexValue (Nat.toDigits 16 n) = n := by
  induction n using Nat.strongRecOn with
  | ind n ih =>
    rcases Nat.lt_or_ge n 16 with hsmall | hlarge
    · rw [Nat.toDigits_of_lt_base hsmall, ← List.nil_append [_], hexValue_concat,
        hexDigit?_digitChar n hsmall]
      exact Nat.zero_add n
    · rw [Nat.toDigits_of_base_le (by decide) hlarge, hexValue_concat, ih (n / 16) (by omega),
        hexDigit?_digitChar _ (Nat.mod_lt n (by decide))]
      exact Nat.div_add_mod n 16

/-- Written digits read back, however many zeros stand in front of them. -/
theorem hexValue_hexDigits (width n : Nat) : hexValue (hexDigits width n) = n := by
  unfold hexDigits
  simp only
  rw [hexValue_zeros_append, hexValue_toDigits]

theorem length_hexDigits (width : Nat) {n : Nat} (hwidth : 0 < width) (hn : n < Nat.pow 16 width) :
    (hexDigits width n).length = width := by
  have hle := (Nat.length_toDigits_le_iff (b := 16) (by decide) hwidth).mpr hn
  unfold hexDigits
  simp only [List.length_append, List.length_replicate]
  omega

theorem isSome_of_mem_toDigits {n : Nat} {c : Char} (hc : c ∈ Nat.toDigits 16 n) :
    (hexDigit? c).isSome = true := by
  induction n using Nat.strongRecOn with
  | ind n ih =>
    rcases Nat.lt_or_ge n 16 with hsmall | hlarge
    · rw [Nat.toDigits_of_lt_base hsmall, List.mem_singleton] at hc
      rw [hc, hexDigit?_digitChar n hsmall]
      rfl
    · rw [Nat.toDigits_of_base_le (by decide) hlarge, List.mem_append, List.mem_singleton] at hc
      rcases hc with hc | rfl
      · exact ih (n / 16) (by omega) hc
      · rw [hexDigit?_digitChar _ (Nat.mod_lt n (by decide))]
        rfl

theorem isSome_of_mem_hexDigits {width n : Nat} {c : Char} (hc : c ∈ hexDigits width n) :
    (hexDigit? c).isSome = true := by
  unfold hexDigits at hc
  rcases List.mem_append.mp hc with hc | hc
  · rw [List.eq_of_mem_replicate hc]
    rfl
  · exact isSome_of_mem_toDigits hc

/-! ## Reading what stands between quotes -/

/-- The character of the code that the first so many digits stand for, and what is behind them. -/
def readCode (width : Nat) (cs : List Char) : Char × List Char :=
  (Char.ofNat (hexValue (cs.take width)), cs.drop width)

/-- The first character of what stands between quotes, and what is behind it. -/
def unescape? : List Char → Option (Char × List Char)
  | '\\' :: 'n' :: rest => some ('\n', rest)
  | '\\' :: 'r' :: rest => some ('\r', rest)
  | '\\' :: 't' :: rest => some ('\t', rest)
  | '\\' :: 'x' :: rest => some (readCode 2 rest)
  | '\\' :: 'u' :: rest => some (readCode 4 rest)
  | '\\' :: 'U' :: rest => some (readCode 8 rest)
  | '\\' :: c :: rest => some (c, rest)
  | c :: rest => some (c, rest)
  | [] => none

theorem readCode_hexDigits (width : Nat) {c : Char} (hwidth : 0 < width)
    (hc : c.toNat < Nat.pow 16 width) (rest : List Char) :
    readCode width (hexDigits width c.toNat ++ rest) = (c, rest) := by
  have hlength := length_hexDigits width hwidth hc
  unfold readCode
  rw [List.take_left' hlength, List.drop_left' hlength, hexValue_hexDigits, Char.ofNat_toNat]

theorem scalar_cases (c : Char) :
    c.toNat < 0xd800 ∨ 0xdfff < c.toNat ∧ c.toNat < 0x110000 := c.valid

theorem unescape?_escapeCode (c : Char) (rest : List Char) :
    unescape? (escapeCode c.toNat ++ rest) = some (c, rest) := by
  have hscalar := scalar_cases c
  unfold escapeCode
  split
  · next hc => exact congrArg some (readCode_hexDigits 2 (by decide) hc rest)
  · split
    · next hc => exact congrArg some (readCode_hexDigits 4 (by decide) hc rest)
    · have hc : c.toNat < Nat.pow 16 8 := by
        show _ < 0x100000000
        omega
      exact congrArg some (readCode_hexDigits 8 (by decide) hc rest)

theorem feed_not_mem_escapeCode (n : Nat) : '\n' ∉ escapeCode n := by
  have hdigits : ∀ width, '\n' ∉ hexDigits width n := fun width h =>
    absurd (isSome_of_mem_hexDigits h) (by decide)
  unfold escapeCode
  split
  · simp [hdigits]
  · split <;> simp [hdigits]

theorem unescape?_cons {c : Char} (hc : c ≠ '\\') (rest : List Char) :
    unescape? (c :: rest) = some (c, rest) := by
  unfold unescape?
  split <;> simp_all

section

variable {quote : Char} (hquote : quote = singleQuote ∨ quote = doubleQuote)
include hquote

/-- A character as it stands between quotes is read, whatever is behind it. -/
theorem unescape?_escapeChar (c : Char) (rest : List Char) :
    unescape? (escapeChar quote c ++ rest) = some (c, rest) := by
  unfold escapeChar
  split
  · next hc =>
    rcases hc with rfl | rfl
    · rcases hquote with rfl | rfl <;> rfl
    · rfl
  · next hc =>
    split
    · next hfeed => rw [hfeed]; rfl
    · split
      · next hreturn => rw [hreturn]; rfl
      · split
        · next htab => rw [htab]; rfl
        · split
          · exact unescape?_cons (fun h => hc (.inr h)) rest
          · exact unescape?_escapeCode c rest

theorem escapes_injective {cs ds : List Char}
    (h : cs.flatMap (escapeChar quote) = ds.flatMap (escapeChar quote)) : cs = ds := by
  refine flatMap_injective (fun c hnil => ?_) (fun {c d r s} heq => ?_) h
  · have hread := unescape?_escapeChar hquote c []
    rw [hnil] at hread
    cases hread
  · have hread := unescape?_escapeChar hquote c r
    rw [heq, unescape?_escapeChar hquote] at hread
    exact (Prod.mk.inj (Option.some.inj hread)).imp Eq.symm Eq.symm

/-- A line feed is never shown as it is. -/
theorem feed_not_mem_escapeChar (c : Char) : '\n' ∉ escapeChar quote c := by
  intro h
  unfold escapeChar at h
  split at h
  · next hc =>
    have hfeed : c = '\n' := by simpa [eq_comm] using h
    subst hfeed
    rcases hc with rfl | hc
    · revert hquote
      decide
    · exact absurd hc (by decide)
  · split at h
    · simp at h
    · next hfeed =>
      split at h
      · simp at h
      · split at h
        · simp at h
        · split at h
          · exact hfeed (List.mem_singleton.mp h).symm
          · exact feed_not_mem_escapeCode _ h

end

theorem quoteFor_cases (cs : List Char) :
    quoteFor cs = singleQuote ∨ quoteFor cs = doubleQuote := by
  unfold quoteFor
  split
  · exact .inr rfl
  · exact .inl rfl

/-- A text of printable characters, neither single quotes nor backslashes, is shown as it is. -/
theorem quoted_plain {cs : List Char}
    (h : ∀ c ∈ cs, isPrintable c = true ∧ c ≠ singleQuote ∧ c ≠ '\\') :
    quoted cs = singleQuote :: (cs ++ [singleQuote]) := by
  have hquote : quoteFor cs = singleQuote := if_neg fun hmem => (h _ hmem.1).2.1 rfl
  have hplain : ∀ c ∈ cs, escapeChar singleQuote c = [c] := by
    intro c hc
    obtain ⟨hprint, hsingle, hslash⟩ := h c hc
    have hcontrol : ∀ a, isPrintable a = false → c ≠ a := by
      rintro a ha rfl
      rw [hprint] at ha
      cases ha
    unfold escapeChar
    rw [if_neg (not_or.mpr ⟨hsingle, hslash⟩), if_neg (hcontrol '\n' (by decide)),
      if_neg (hcontrol '\r' (by decide)), if_neg (hcontrol '\t' (by decide)), if_pos hprint]
  have hcode : cs.flatMap (escapeChar singleQuote) = cs := by
    rw [List.flatMap_congr hplain, List.flatMap_singleton']
  unfold quoted
  rw [hquote]
  simp only [hcode, List.cons_append]

/-- Different texts are shown differently. -/
theorem quoted_injective {cs ds : List Char} (h : quoted cs = quoted ds) : cs = ds := by
  unfold quoted at h
  simp only [List.cons_append] at h
  injection h with hquote hrest
  rw [hquote] at hrest
  exact escapes_injective (quoteFor_cases ds) (List.append_cancel_right hrest)

theorem feed_not_mem_quoted (cs : List Char) : '\n' ∉ quoted cs := by
  have hquote := quoteFor_cases cs
  have hfeed : quoteFor cs ≠ '\n' := by
    rcases hquote with h | h <;> rw [h] <;> decide
  unfold quoted
  simp only [List.cons_append, List.mem_cons, List.mem_append, List.mem_flatMap, not_or, not_exists,
    not_and, List.not_mem_nil, not_false_eq_true, and_true]
  exact ⟨hfeed.symm, fun c _ => feed_not_mem_escapeChar hquote c, hfeed.symm⟩

end MflFrontend
