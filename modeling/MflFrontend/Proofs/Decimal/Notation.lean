import MflFrontend.Proofs.Decimal.Rounding
import MflFrontend.Proofs.Lexing.Characters

/-!
# How decimal numbers are written

A decimal number without a sign is written as a whole number, which starts with zero only if it is
zero, and behind it a fraction or an exponent of ten or both. Such a text is read as the numeral
that it stands for. The text of a double is of this form, and the numeral that it stands for has
that double as the closest one; so the text of every double reads back.
-/

namespace MflFrontend

/-! ## Texts and what they stand for -/

/-- A whole number is zero, or digits of which the first is not zero. -/
def IsWhole (l : List Char) : Prop := l = ['0'] ∨ IsDigits l ∧ l.head? ≠ some '0'

/-- The text of a fraction, which may be missing, and its digits. -/
inductive FractionText : List Char → List Char → Prop where
  | absent : FractionText [] []
  | digits {ds : List Char} (hds : IsDigits ds) : FractionText ('.' :: ds) ds

/-- The text of an exponent of ten, which may be missing, and the exponent. -/
inductive ExponentText : List Char → Int → Prop where
  | absent : ExponentText [] 0
  | raised {mark : Char} {sign ds : List Char} (hmark : mark = 'e' ∨ mark = 'E')
      (hsign : sign = [] ∨ sign = ['+']) (hds : IsDigits ds) :
      ExponentText (mark :: (sign ++ ds)) (ofDecimalDigits ds)
  | lowered {mark : Char} {ds : List Char} (hmark : mark = 'e' ∨ mark = 'E') (hds : IsDigits ds) :
      ExponentText (mark :: '-' :: ds) (-(ofDecimalDigits ds : Int))

/-- The text of a number with a fraction or an exponent, and what it stands for. -/
inductive RealText : List Char → Numeral → Prop where
  | mk {w f fs x : List Char} {e : Int} (hw : IsWhole w) (hf : FractionText f fs)
      (hx : ExponentText x e) (hmarked : f ≠ [] ∨ x ≠ []) :
      RealText (w ++ (f ++ x)) ⟨ofDecimalDigits (w ++ fs), e - fs.length⟩

/-- The characters that numbers are written with. -/
def isNumberChar (c : Char) : Bool := c.isDigit || ['.', 'e', 'E', '+', '-'].contains c

/-! ## Characters -/

theorem IsWhole.isDigits {l : List Char} (h : IsWhole l) : IsDigits l := by
  rcases h with rfl | ⟨h, -⟩
  · exact ⟨List.cons_ne_nil _ _, by simp⟩
  · exact h

theorem isNumberChar_of_isDigit {c : Char} (h : c.isDigit = true) : isNumberChar c = true := by
  rw [isNumberChar, h, Bool.true_or]

theorem IsDigits.isNumberChar {ds : List Char} (h : IsDigits ds) :
    ∀ c ∈ ds, MflFrontend.isNumberChar c = true :=
  fun c hc => isNumberChar_of_isDigit (h.2 c hc)

theorem FractionText.isNumberChar {f fs : List Char} (h : FractionText f fs) :
    ∀ c ∈ f, MflFrontend.isNumberChar c = true := by
  cases h with
  | absent => exact nofun
  | digits hds => exact List.forall_mem_cons.mpr ⟨rfl, hds.isNumberChar⟩

theorem ExponentText.isNumberChar {x : List Char} {e : Int} (h : ExponentText x e) :
    ∀ c ∈ x, MflFrontend.isNumberChar c = true := by
  have hletter : ∀ {mark : Char}, mark = 'e' ∨ mark = 'E' →
      MflFrontend.isNumberChar mark = true := by
    rintro mark (rfl | rfl) <;> rfl
  cases h with
  | absent => exact nofun
  | raised hmark hsign hds =>
    refine List.forall_mem_cons.mpr
      ⟨hletter hmark, List.forall_mem_append.mpr ⟨?_, hds.isNumberChar⟩⟩
    rcases hsign with rfl | rfl
    · exact nofun
    · exact List.forall_mem_singleton.mpr rfl
  | lowered hmark hds =>
    exact List.forall_mem_cons.mpr ⟨hletter hmark, List.forall_mem_cons.mpr ⟨rfl, hds.isNumberChar⟩⟩

theorem RealText.isNumberChar {l : List Char} {n : Numeral} (h : RealText l n) :
    ∀ c ∈ l, MflFrontend.isNumberChar c = true := by
  obtain ⟨hw, hf, hx, -⟩ := h
  exact List.forall_mem_append.mpr
    ⟨hw.isDigits.isNumberChar, List.forall_mem_append.mpr ⟨hf.isNumberChar, hx.isNumberChar⟩⟩

/-- A number with a fraction or an exponent is not written by digits alone. -/
theorem RealText.exists_mark {l : List Char} {n : Numeral} (h : RealText l n) :
    ∃ c ∈ l, c.isDigit = false ∧ c ≠ '-' := by
  obtain ⟨-, hf, hx, hmarked⟩ := h
  cases hf with
  | digits hds => exact ⟨'.', by simp, rfl, by decide⟩
  | absent =>
    cases hx with
    | absent => simp at hmarked
    | @raised mark _ _ hmark _ _ | @lowered mark _ hmark _ =>
      refine ⟨mark, by simp, ?_⟩
      rcases hmark with rfl | rfl <;> decide

/-! ## Reading -/

theorem ofDecimalDigits_zeros_append (n : Nat) (ds : List Char) :
    ofDecimalDigits (List.replicate n '0' ++ ds) = ofDecimalDigits ds := by
  unfold ofDecimalDigits
  rw [Nat.ofDigitChars_append, Nat.ofDigitChars_replicate_zero, Nat.mul_zero]

theorem ofDecimalDigits_append_zeros (ds : List Char) (n : Nat) :
    ofDecimalDigits (ds ++ List.replicate n '0') = ofDecimalDigits ds * pow10 n := by
  unfold ofDecimalDigits
  rw [Nat.ofDigitChars_append, Nat.ofDigitChars_replicate_zero, Nat.mul_comm]
  rfl

theorem integerOfChars?_digits {ds : List Char} (h : IsDigits ds) :
    integerOfChars? ds = some (ofDecimalDigits ds : Int) := by
  have hall : ds.all Char.isDigit = true := List.all_eq_true.mpr h.2
  have hempty : ds.isEmpty = false := List.isEmpty_eq_false_iff.mpr h.1
  unfold integerOfChars?
  split
  · next ds' =>
    exact absurd (h.2 '-' List.mem_cons_self) (by decide)
  · rw [hall, hempty]
    rfl

theorem integerOfChars?_minus {ds : List Char} (h : IsDigits ds) :
    integerOfChars? ('-' :: ds) = some (-(ofDecimalDigits ds : Int)) := by
  have hall : ds.all Char.isDigit = true := List.all_eq_true.mpr h.2
  have hempty : ds.isEmpty = false := List.isEmpty_eq_false_iff.mpr h.1
  unfold integerOfChars?
  simp only
  rw [hall, hempty]
  rfl

/-- Digits do not open with a sign. -/
theorem IsDigits.head?_ne {ds : List Char} (h : IsDigits ds) {c : Char} (hc : c.isDigit = false) :
    ds.head? ≠ some c := by
  intro hhead
  have hdigit := h.2 c (List.mem_of_head? hhead)
  rw [hc] at hdigit
  cases hdigit

/-- An exponent behind digits is read as it is written. -/
theorem ExponentText.read {x : List Char} {e : Int} (h : ExponentText x e) :
    x = [] ∧ e = 0 ∨ ∃ mark rest, x = mark :: rest ∧ mark.toLower = 'e' ∧ mark.isDigit = false ∧
      mark ≠ '.' ∧ Numeral.exponentOfChars? rest = some e := by
  have hletter : ∀ {mark : Char}, mark = 'e' ∨ mark = 'E' →
      mark.toLower = 'e' ∧ mark.isDigit = false ∧ mark ≠ '.' := by
    rintro mark (rfl | rfl) <;> decide
  cases h with
  | absent => exact .inl ⟨rfl, rfl⟩
  | @raised mark sign ds hmark hsign hds =>
    obtain ⟨hlower, hdigit, hpoint⟩ := hletter hmark
    refine .inr ⟨mark, _, rfl, hlower, hdigit, hpoint, ?_⟩
    rcases hsign with rfl | rfl
    · rw [List.nil_append]
      unfold Numeral.exponentOfChars?
      split
      · exact absurd (hds.2 '+' List.mem_cons_self) (by decide)
      · exact integerOfChars?_digits hds
    · have hminus : (ds.head? == some '-') = false := by
        simpa using hds.head?_ne (c := '-') rfl
      show (if ds.head? == some '-' then none else integerOfChars? ds) = _
      rw [hminus]
      exact integerOfChars?_digits hds
  | @lowered mark ds hmark hds =>
    obtain ⟨hlower, hdigit, hpoint⟩ := hletter hmark
    exact .inr ⟨mark, _, rfl, hlower, hdigit, hpoint, integerOfChars?_minus hds⟩

theorem ExponentText.head?_not_digit {x : List Char} {e : Int} (h : ExponentText x e) :
    ∀ c, x.head? = some c → c.isDigit = false := by
  rcases h.read with ⟨rfl, -⟩ | ⟨mark, rest, rfl, -, hdigit, -, -⟩
  · exact nofun
  · intro c hc
    cases hc
    exact hdigit

/-- The text of a number is read as what it stands for. -/
theorem RealText.ofChars? {l : List Char} {n : Numeral} (h : RealText l n) :
    Numeral.ofChars? l = some n := by
  obtain ⟨hw, hf, hx, hmarked⟩ := h
  rename_i w f fs x e
  have hempty : w.isEmpty = false := List.isEmpty_eq_false_iff.mpr hw.isDigits.1
  cases hf with
  | absent =>
    rcases hx.read with ⟨rfl, -⟩ | ⟨mark, rest, rfl, hlower, hdigit, hpoint, hexponent⟩
    · exact absurd rfl (hmarked.resolve_left (not_not.mpr rfl))
    · have hwhole : (w ++ ([] ++ mark :: rest)).span Char.isDigit = (w, mark :: rest) :=
        span_exact hw.isDigits.2 hx.head?_not_digit
      unfold Numeral.ofChars?
      simp only [hwhole]
      split
      · next heq => exact absurd (List.cons.inj heq).1 hpoint
      · simp only [hempty, hlower, hexponent, Bool.false_and, Bool.false_eq_true, if_false, if_true]
        rfl
  | digits hds =>
    have hwhole : (w ++ '.' :: (fs ++ x)).span Char.isDigit = (w, '.' :: (fs ++ x)) :=
      span_exact hw.isDigits.2 fun c hc => by
        cases hc
        rfl
    have hfraction : (fs ++ x).span Char.isDigit = (fs, x) := span_exact hds.2 hx.head?_not_digit
    rw [List.cons_append]
    unfold Numeral.ofChars?
    simp only [hwhole, hfraction, hempty, Bool.false_and, Bool.false_eq_true, if_false]
    rcases hx.read with ⟨rfl, rfl⟩ | ⟨mark, rest, rfl, hlower, -, -, hexponent⟩
    · simp only [Int.zero_sub]
    · simp only [hlower, if_true, hexponent]
      rfl

/-! ## Digits -/

theorem isDigits_decimalDigits (n : Nat) : IsDigits (decimalDigits n) :=
  ⟨List.ne_nil_of_length_pos Nat.length_toDigits_pos,
    fun _ hc => Nat.isDigit_of_mem_toDigits (by decide) (by decide) hc⟩

/-- The digits of a number that is not zero do not start with zero. -/
theorem head?_decimalDigits {n : Nat} (hn : n ≠ 0) : (decimalDigits n).head? ≠ some '0' := by
  induction n using Nat.strongRecOn with
  | ind n ih =>
    unfold decimalDigits
    rcases Nat.lt_or_ge n 10 with hsmall | hlarge
    · rw [Nat.toDigits_of_lt_base hsmall]
      have hdigit : ∀ m < 10, m ≠ 0 → [Nat.digitChar m].head? ≠ some '0' := by decide
      exact hdigit n hsmall hn
    · obtain ⟨c, cs, hc⟩ := List.exists_cons_of_ne_nil (isDigits_decimalDigits (n / 10)).1
      have hhead := ih (n / 10) (by omega) (by omega)
      unfold decimalDigits at hc hhead
      rw [hc] at hhead
      rw [Nat.toDigits_of_base_le (by decide) hlarge, hc]
      exact hhead

theorem isWhole_decimalDigits (n : Nat) : IsWhole (decimalDigits n) := by
  rcases Nat.eq_zero_or_pos n with rfl | hn
  · exact .inl rfl
  · exact .inr ⟨isDigits_decimalDigits n, head?_decimalDigits (Nat.ne_of_gt hn)⟩

/-- Only digits with at most a sign are read as an integer. -/
theorem integerOfChars?_eq_none {cs : List Char} {c : Char} (hc : c ∈ cs)
    (hdigit : c.isDigit = false) (hminus : c ≠ '-') : integerOfChars? cs = none := by
  have hall : ∀ {ds : List Char}, c ∈ ds → ds.all Char.isDigit = false := by
    intro ds hc
    refine Bool.eq_false_iff.mpr fun h => ?_
    rw [List.all_eq_true.mp h c hc] at hdigit
    cases hdigit
  unfold integerOfChars?
  split
  · next ds =>
    rw [hall (List.mem_of_ne_of_mem hminus hc), Bool.not_false, Bool.or_true]
    rfl
  · rw [hall hc, Bool.not_false, Bool.or_true]
    rfl

/-- A written integer reads back. -/
theorem integerOfChars?_integerDigits (n : Int) : integerOfChars? (integerDigits n) = some n := by
  have hdigits := isDigits_decimalDigits n.natAbs
  unfold integerDigits
  split
  · next hn =>
    have hnegative : -(n.natAbs : Int) = n := by omega
    rw [integerOfChars?_minus hdigits, ofDecimalDigits_decimalDigits, hnegative]
  · next hn =>
    have hpositive : (n.natAbs : Int) = n := by omega
    rw [integerOfChars?_digits hdigits, ofDecimalDigits_decimalDigits, hpositive]

theorem mem_integerDigits {n : Int} {c : Char} (hc : c ∈ integerDigits n) :
    c.isDigit = true ∨ c = '-' := by
  have hdigits := (isDigits_decimalDigits n.natAbs).2
  unfold integerDigits at hc
  split at hc
  · rcases List.mem_cons.mp hc with rfl | hc
    · exact .inr rfl
    · exact .inl (hdigits c hc)
  · exact .inl (hdigits c hc)

namespace Numeral

variable {n : Numeral}

/-- The digits of a coefficient are those that are shown and zeros behind them. -/
theorem exists_zeros (n : Numeral) :
    ∃ t, decimalDigits n.coefficient = n.digits ++ List.replicate t '0' := by
  have hsplit := List.takeWhile_append_dropWhile (p := (· == '0'))
    (l := (decimalDigits n.coefficient).reverse)
  have hzeros := List.eq_replicate_of_mem (a := '0')
    (l := (decimalDigits n.coefficient).reverse.takeWhile (· == '0'))
    fun c hc => eq_of_beq (List.all_eq_true.mp List.all_takeWhile c hc)
  refine ⟨((decimalDigits n.coefficient).reverse.takeWhile (· == '0')).length, ?_⟩
  rw [← List.reverse_replicate, ← hzeros, digits, ← List.reverse_append, hsplit,
    List.reverse_reverse]

/-- Without a zero coefficient there are digits to show, and the first is not zero. -/
theorem isWhole_digits (hn : n.coefficient ≠ 0) :
    IsDigits n.digits ∧ n.digits.head? ≠ some '0' := by
  obtain ⟨t, ht⟩ := n.exists_zeros
  have hhead := head?_decimalDigits hn
  have hdigits := (isDigits_decimalDigits n.coefficient).2
  rw [ht] at hhead hdigits
  have hne : n.digits ≠ [] := by
    intro hnil
    have hzero : ofDecimalDigits (decimalDigits n.coefficient) = 0 := by
      rw [ht, hnil, ofDecimalDigits_append_zeros]
      exact Nat.zero_mul _
    rw [ofDecimalDigits_decimalDigits] at hzero
    exact hn hzero
  refine ⟨⟨hne, fun c hc => hdigits c (List.mem_append_left _ hc)⟩, ?_⟩
  obtain ⟨c, cs, hc⟩ := List.exists_cons_of_ne_nil hne
  rw [hc] at hhead ⊢
  exact hhead

/-- A numeral stands for the digits that are shown, with the point where it stands. -/
theorem closest_digits (n : Numeral) :
    n.closest = closest ⟨ofDecimalDigits n.digits, n.point - n.digits.length⟩ := by
  obtain ⟨t, ht⟩ := n.exists_zeros
  have hcoefficient : n.coefficient = ofDecimalDigits n.digits * pow10 t := by
    rw [← ofDecimalDigits_append_zeros, ← ht, ofDecimalDigits_decimalDigits]
  have hpoint : n.point - n.digits.length = n.exponent + t := by
    have hlength := congrArg List.length ht
    rw [List.length_append, List.length_replicate] at hlength
    rw [point, hlength]
    push_cast
    omega
  rw [hpoint, ← Double.closest_mul_pow10, ← hcoefficient]

/-! ## The layout of a numeral -/

theorem realText_point {w fs : List Char} (hw : IsWhole w) (hfs : IsDigits fs) :
    RealText (w ++ '.' :: fs) ⟨ofDecimalDigits (w ++ fs), -(fs.length : Int)⟩ := by
  have htext := RealText.mk hw (.digits hfs) .absent (.inl (List.cons_ne_nil _ _))
  rwa [List.append_nil, Int.zero_sub] at htext

section

variable {ds : List Char} {p : Int} (hds : IsDigits ds) (hhead : ds.head? ≠ some '0')
include hds hhead

theorem isWhole_append {ds' : List Char} (hds' : ∀ c ∈ ds', c.isDigit = true) :
    IsWhole (ds ++ ds') := by
  refine .inr ⟨⟨List.append_ne_nil_of_left_ne_nil hds.1 _, ?_⟩, ?_⟩
  · intro c hc
    exact (List.mem_append.mp hc).elim (hds.2 c) (hds' c)
  · obtain ⟨c, cs, rfl⟩ := List.exists_cons_of_ne_nil hds.1
    exact hhead

theorem isWhole_take {k : Nat} (hk : 0 < k) : IsWhole (ds.take k) := by
  obtain ⟨c, cs, rfl⟩ := List.exists_cons_of_ne_nil hds.1
  obtain ⟨k, rfl⟩ := Nat.exists_eq_succ_of_ne_zero (Nat.ne_of_gt hk)
  refine .inr ⟨⟨List.cons_ne_nil _ _, fun d hd => hds.2 d (List.mem_of_mem_take hd)⟩, ?_⟩
  exact hhead

end

theorem isDigits_zeros_append {ds : List Char} (hds : IsDigits ds) (n : Nat) :
    IsDigits (List.replicate n '0' ++ ds) := by
  refine ⟨List.append_ne_nil_of_right_ne_nil _ hds.1, fun c hc => ?_⟩
  rcases List.mem_append.mp hc with hc | hc
  · rw [List.eq_of_mem_replicate hc]
    rfl
  · exact hds.2 c hc

theorem realText_positional (hn : n.coefficient ≠ 0) :
    ∃ m, RealText n.positional m ∧ m.closest = n.closest := by
  obtain ⟨hds, hhead⟩ := isWhole_digits hn
  rw [closest_digits]
  unfold positional
  generalize n.digits = ds at *
  generalize n.point = p
  simp only
  split
  · next hp =>
    -- the point stands before all digits
    show ∃ m, RealText (['0'] ++ '.' :: (List.replicate (-p).toNat '0' ++ ds)) m ∧ _
    refine ⟨_, realText_point (.inl rfl) (isDigits_zeros_append hds (-p).toNat), ?_⟩
    have hcoefficient : ofDecimalDigits (['0'] ++ (List.replicate (-p).toNat '0' ++ ds)) =
        ofDecimalDigits ds := ofDecimalDigits_zeros_append ((-p).toNat + 1) ds
    have hexponent : -((List.replicate (-p).toNat '0' ++ ds).length : Int) = p - ds.length := by
      rw [List.length_append, List.length_replicate]
      push_cast
      omega
    rw [hcoefficient, hexponent]
  · next hp =>
    obtain ⟨k, rfl⟩ := Int.eq_ofNat_of_zero_le (Int.le_of_lt (Int.not_le.mp hp))
    rw [Int.toNat_natCast, List.append_assoc]
    rcases Nat.lt_or_ge k ds.length with hlong | hshort
    · -- the point stands among the digits
      have hrest : ds.drop k ≠ [] := by
        rw [Ne, List.drop_eq_nil_iff]
        omega
      have hfraction : IsDigits (ds.drop k) :=
        ⟨hrest, fun c hc => hds.2 c (List.mem_of_mem_drop hc)⟩
      have hnone : k - ds.length = 0 := by omega
      rw [List.isEmpty_eq_false_iff.mpr hrest, hnone, List.replicate_zero, List.append_nil,
        if_neg Bool.false_ne_true]
      show ∃ m, RealText (ds.take k ++ '.' :: ds.drop k) m ∧ _
      refine ⟨_, realText_point (isWhole_take hds hhead (by omega)) hfraction, ?_⟩
      rw [List.take_append_drop, List.length_drop]
      congr 2
      omega
    · -- the point stands behind all digits
      have hzeros : ∀ c ∈ List.replicate (k - ds.length) '0', c.isDigit = true := by
        intro c hc
        rw [List.eq_of_mem_replicate hc]
        rfl
      rw [List.drop_of_length_le hshort, List.take_of_length_le hshort]
      have hfraction : IsDigits ['0'] := ⟨List.cons_ne_nil _ _, by simp⟩
      show ∃ m, RealText (ds ++ List.replicate (k - ds.length) '0' ++ '.' :: ['0']) m ∧ _
      refine ⟨_, realText_point (isWhole_append hds hhead hzeros) hfraction, ?_⟩
      have hcoefficient : ofDecimalDigits (ds ++ List.replicate (k - ds.length) '0' ++ ['0']) =
          ofDecimalDigits ds * pow10 (k - ds.length + 1) := by
        rw [List.append_assoc, ← List.replicate_succ', ofDecimalDigits_append_zeros]
      rw [hcoefficient, Double.closest_mul_pow10]
      congr 2
      rw [List.length_singleton]
      omega

theorem exponentText_power (e : Int) :
    ExponentText ('e' :: (if e < 0 then '-' else '+') ::
      if (decimalDigits e.natAbs).length < 2 then '0' :: decimalDigits e.natAbs
      else decimalDigits e.natAbs) e := by
  have hpower : ∃ z, (if (decimalDigits e.natAbs).length < 2 then '0' :: decimalDigits e.natAbs
      else decimalDigits e.natAbs) = List.replicate z '0' ++ decimalDigits e.natAbs := by
    split
    · exact ⟨1, rfl⟩
    · exact ⟨0, rfl⟩
  obtain ⟨z, hz⟩ := hpower
  have hdigits := isDigits_zeros_append (isDigits_decimalDigits e.natAbs) z
  have hvalue : ofDecimalDigits (List.replicate z '0' ++ decimalDigits e.natAbs) = e.natAbs := by
    rw [ofDecimalDigits_zeros_append, ofDecimalDigits_decimalDigits]
  rw [hz]
  split
  · next he =>
    have htext := ExponentText.lowered (.inl rfl) hdigits
    rw [hvalue] at htext
    have hnegative : -(e.natAbs : Int) = e := by omega
    rwa [hnegative] at htext
  · next he =>
    have htext := ExponentText.raised (.inl rfl) (.inr rfl) hdigits
    rw [hvalue] at htext
    have hpositive : (e.natAbs : Int) = e := by omega
    rwa [hpositive] at htext

theorem realText_scientific (hn : n.coefficient ≠ 0) :
    ∃ m, RealText n.scientific m ∧ m.closest = n.closest := by
  obtain ⟨hds, hhead⟩ := isWhole_digits hn
  rw [closest_digits]
  unfold scientific
  generalize n.digits = ds at *
  generalize n.point = p
  have hpower := exponentText_power (p - 1)
  simp only [List.append_assoc, List.cons_append, List.nil_append]
  generalize htext : 'e' :: _ = x at hpower ⊢
  have hx : x ≠ [] := by
    rw [← htext]
    exact List.cons_ne_nil _ _
  match ds, hds, hhead with
  | [], hds, _ => exact absurd rfl hds.1
  | [d], hds, hhead =>
    refine ⟨_, .mk (.inr ⟨hds, hhead⟩) .absent hpower (.inr hx), ?_⟩
    congr 2
    simp
  | d :: d' :: ds, hds, hhead =>
    have hfirst : IsDigits [d] := ⟨List.cons_ne_nil _ _, fun c hc => by
      rw [List.mem_singleton.mp hc]
      exact hds.2 d List.mem_cons_self⟩
    have hrest : IsDigits (d' :: ds) :=
      ⟨List.cons_ne_nil _ _, fun c hc => hds.2 c (List.mem_cons_of_mem d hc)⟩
    refine ⟨_, .mk (.inr ⟨hfirst, hhead⟩) (.digits hrest) hpower (.inl (List.cons_ne_nil _ _)), ?_⟩
    congr 2
    simp only [List.length_cons]
    omega

/-- The text of a numeral that is not zero stands for a numeral with the same closest double. -/
theorem realText_layout (hn : n.coefficient ≠ 0) :
    ∃ m, RealText n.layout m ∧ m.closest = n.closest := by
  unfold layout
  split
  · exact realText_positional hn
  · exact realText_scientific hn

end Numeral

/-! ## The text of a double -/

theorem toLower_of_isDigit {c : Char} (h : c.isDigit = true) : c.toLower = c := by
  unfold Char.toLower
  rw [dif_neg]
  rintro ⟨hupper, -⟩
  have hcode := code_of_isDigit h
  rw [ge_iff_le, UInt32.le_iff_toNat_le] at hupper
  have hletter : 'A'.val.toNat = 0x41 := rfl
  have hval : c.val.toNat = c.toNat := rfl
  omega

/-- The text of a number starts with a digit. -/
theorem RealText.exists_cons {l : List Char} {n : Numeral} (h : RealText l n) :
    ∃ c rest, l = c :: rest ∧ c.isDigit = true := by
  obtain ⟨hw, -, -, -⟩ := h
  obtain ⟨c, cs, rfl⟩ := List.exists_cons_of_ne_nil hw.isDigits.1
  exact ⟨c, _, rfl, hw.isDigits.2 c List.mem_cons_self⟩

namespace Double

/-- Only zero has a shortest numeral of coefficient zero. -/
theorem shortest_ne_zero {d : Double} (hd : d.rank ≠ 0) : d.shortest.coefficient ≠ 0 := by
  have hrank := d.shortest_closest
  generalize d.shortest = n at hrank ⊢
  obtain ⟨c, e⟩ := n
  rintro rfl
  rw [closest_zero] at hrank
  exact hd hrank.symm

/-- The text of a finite magnitude stands for a numeral with this magnitude as the closest one. -/
theorem realText_magnitude {d : Double} (hd : d.isInfinite = false) :
    ∃ m, RealText d.magnitudeText m ∧ m.closest.rank = d.rank := by
  unfold magnitudeText
  rw [hd, if_neg Bool.false_ne_true]
  split
  · next hzero =>
    have hdigit : IsDigits ['0'] := ⟨List.cons_ne_nil _ _, by simp⟩
    have hrank : ∀ e, (Numeral.closest ⟨0, e⟩).rank = d.rank := fun e => by
      rw [closest_zero, hzero]
      rfl
    exact ⟨_, Numeral.realText_point (.inl rfl) hdigit, hrank _⟩
  · next hnot =>
    obtain ⟨m, htext, hm⟩ := Numeral.realText_layout (shortest_ne_zero hnot)
    exact ⟨m, htext, by rw [hm, d.shortest_closest]⟩

theorem magnitudeText_of_infinite {d : Double} (hd : d.isInfinite = true) :
    d.magnitudeText = ['i', 'n', 'f'] := if_pos hd

theorem ext_rank {d d' : Double} (hsign : d.negative = d'.negative) (hrank : d.rank = d'.rank) :
    d = d' := by
  obtain ⟨negative, rank, hle⟩ := d
  obtain ⟨negative', rank', hle'⟩ := d'
  cases hsign
  cases hrank
  rfl

/-- The text of a number is read as the closest double. -/
theorem magnitudeOfChars?_realText {l : List Char} {n : Numeral} (h : RealText l n) :
    magnitudeOfChars? l = some n.closest := by
  obtain ⟨c, rest, hcons, hdigit⟩ := h.exists_cons
  have hword : ∀ word, l.map Char.toLower ≠ 'i' :: word := by
    intro word hword
    rw [hcons, List.map_cons, toLower_of_isDigit hdigit] at hword
    rw [(List.cons.inj hword).1] at hdigit
    exact absurd hdigit (by decide)
  unfold magnitudeOfChars?
  simp only
  rw [if_neg (not_or.mpr ⟨hword _, hword _⟩), h.ofChars?, Option.map_some, ofNumeral_eq_closest]

/-- The magnitude of a double is read from its text. -/
theorem magnitudeOfChars?_magnitudeText (d : Double) :
    magnitudeOfChars? d.magnitudeText = some { d with negative := false } := by
  cases hd : d.isInfinite with
  | true =>
    have hrank : d.rank = infiniteRank := eq_of_beq hd
    have hread : magnitudeOfChars? ['i', 'n', 'f'] = some infinity := by
      unfold magnitudeOfChars?
      simp only
      rw [if_pos (.inl (by decide))]
    rw [magnitudeText_of_infinite hd, hread]
    unfold infinity
    simp only [hrank]
  | false =>
    obtain ⟨m, htext, hm⟩ := realText_magnitude hd
    have hclosest : m.closest = { d with negative := false } := ext_rank rfl hm
    rw [magnitudeOfChars?_realText htext, hclosest]

theorem magnitudeText_head (d : Double) :
    ∃ c rest, d.magnitudeText = c :: rest ∧ c ≠ '-' ∧ c ≠ '+' := by
  cases hd : d.isInfinite with
  | true => exact ⟨'i', _, magnitudeText_of_infinite hd, by decide, by decide⟩
  | false =>
    obtain ⟨m, htext, -⟩ := realText_magnitude hd
    obtain ⟨c, rest, hcons, hdigit⟩ := htext.exists_cons
    refine ⟨c, rest, hcons, ?_, ?_⟩ <;>
      · rintro rfl
        exact absurd hdigit (by decide)

/-- A text without a sign is read as a magnitude. -/
theorem ofText?_ofList {c : Char} {rest : List Char} (hminus : c ≠ '-') (hplus : c ≠ '+') :
    ofText? (String.ofList (c :: rest)) = magnitudeOfChars? (c :: rest) := by
  unfold ofText?
  rw [String.toList_ofList]
  split
  · next heq => exact absurd (List.cons.inj heq).1 hminus
  · next heq => exact absurd (List.cons.inj heq).1 hplus
  · rfl

/-- A double is written with the characters of numbers, but for infinity. -/
theorem mem_text {d : Double} {c : Char} (hc : c ∈ d.text.toList) :
    isNumberChar c = true ∨ c ∈ ['i', 'n', 'f'] := by
  have hmagnitude : c ∈ d.magnitudeText → isNumberChar c = true ∨ c ∈ ['i', 'n', 'f'] := by
    intro hc
    cases hd : d.isInfinite with
    | true => exact .inr (magnitudeText_of_infinite hd ▸ hc)
    | false =>
      obtain ⟨m, htext, -⟩ := realText_magnitude hd
      exact .inl (htext.isNumberChar c hc)
  rw [text, String.toList_ofList] at hc
  split at hc
  · rcases List.mem_cons.mp hc with rfl | hc
    · exact .inl rfl
    · exact hmagnitude hc
  · exact hmagnitude hc

/-- No double is written as an integer. -/
theorem exists_mark (d : Double) : ∃ c ∈ d.text.toList, c.isDigit = false ∧ c ≠ '-' := by
  have hmagnitude : ∃ c ∈ d.magnitudeText, c.isDigit = false ∧ c ≠ '-' := by
    cases hd : d.isInfinite with
    | true => exact ⟨'i', magnitudeText_of_infinite hd ▸ List.mem_cons_self, rfl, by decide⟩
    | false =>
      obtain ⟨m, htext, -⟩ := realText_magnitude hd
      exact htext.exists_mark
  obtain ⟨c, hc, hmark⟩ := hmagnitude
  refine ⟨c, ?_, hmark⟩
  rw [text, String.toList_ofList]
  split
  · exact List.mem_cons_of_mem _ hc
  · exact hc

/-- The text of every double reads back. -/
theorem ofText?_text (d : Double) : ofText? d.text = some d := by
  have hmagnitude := d.magnitudeOfChars?_magnitudeText
  unfold text
  cases hsign : d.negative with
  | true =>
    rw [if_pos rfl]
    unfold ofText?
    rw [String.toList_ofList]
    simp only [hmagnitude, Option.map_some, neg, Bool.not_false, ← hsign]
  | false =>
    obtain ⟨c, rest, hcons, hminus, hplus⟩ := d.magnitudeText_head
    rw [if_neg Bool.false_ne_true, hcons, ofText?_ofList hminus hplus, ← hcons, hmagnitude, ← hsign]

/-- Different doubles have different texts. -/
theorem text_injective {d d' : Double} (h : d.text = d'.text) : d = d' := by
  have hread := d.ofText?_text
  rw [h, ofText?_text] at hread
  exact (Option.some.inj hread).symm

end Double

end MflFrontend
