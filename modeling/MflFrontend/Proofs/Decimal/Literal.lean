import MflFrontend.Proofs.Lexing.Factors

/-!
# The double of a real literal

Digits with a point among them are the double closest to their ratio. Reading a decimal text takes
shortcuts far outside the range of doubles, and closes them with a power of ten on one side of the
ratio only; the closest double is the same.
-/

namespace MflFrontend

namespace Double

theorem pow2_pos (n : Nat) : 0 < pow2 n := Nat.pow_pos (by decide)

theorem pow10_pos (n : Nat) : 0 < pow10 n := Nat.pow_pos (by decide)

theorem pow2_add (m n : Nat) : pow2 (m + n) = pow2 m * pow2 n := Nat.pow_add 2 m n

theorem pow10_add (m n : Nat) : pow10 (m + n) = pow10 m * pow10 n := Nat.pow_add 10 m n

theorem pow2_mono {m n : Nat} (h : m ≤ n) : pow2 m ≤ pow2 n :=
  Nat.pow_le_pow_right (by decide) h

theorem pow10_mono {m n : Nat} (h : m ≤ n) : pow10 m ≤ pow10 n :=
  Nat.pow_le_pow_right (by decide) h

theorem pow2_mul_unitsPerOne (n : Nat) : pow2 n * unitsPerOne = pow2 (n + 1074) :=
  (pow2_add n 1074).symm

theorem pow2_le_pow10 (n : Nat) : pow2 (3 * n) ≤ pow10 n := by
  have h : (2 ^ 3) ^ n ≤ 10 ^ n := Nat.pow_le_pow_left (by decide) n
  rwa [← Nat.pow_mul] at h

theorem le_log2_of_pow2_le {k n : Nat} (h : pow2 k ≤ n) : k ≤ n.log2 := by
  have hn : n ≠ 0 := by
    have := pow2_pos k
    omega
  exact (Nat.le_log2 hn).mpr h

/-- Less than half of the least positive double rounds to zero. -/
theorem nearest_eq_zero {num den : Nat} (h : 2 * (num * unitsPerOne) < den) :
    nearest num den = zero := by
  have hquot : num * unitsPerOne / den = 0 := Nat.div_eq_of_lt (by omega)
  have hscale : scaleOf (num * unitsPerOne / den) = 0 := by
    rw [hquot]
    rfl
  have hden : den * pow2 0 = den := Nat.mul_one den
  have hround : roundHalfEven (num * unitsPerOne) den = 0 := by
    unfold roundHalfEven
    simp only
    rw [hquot, Nat.mod_eq_of_lt (by omega), if_pos h]
  have hrank : nearestRank num den = 0 := by
    unfold nearestRank
    simp only
    rw [hscale, hden, hround, Nat.zero_mul]
    exact Nat.zero_min _
  unfold nearest zero
  simp only [hrank]

theorem div_le_roundHalfEven (num den : Nat) : num / den ≤ roundHalfEven num den := by
  unfold roundHalfEven
  simp only
  split
  · exact Nat.le_refl _
  · split
    · exact Nat.le_succ _
    · exact Nat.le_add_right _ _

/-- What is `2 ^ 1024` or more rounds to infinity. -/
theorem nearest_eq_infinity {num den : Nat} (hden : 0 < den) (h : den * pow2 1024 ≤ num) :
    nearest num den = infinity := by
  have hunits : pow2 (1024 + 1074) ≤ num * unitsPerOne / den := by
    rw [Nat.le_div_iff_mul_le hden]
    have hmul : den * pow2 1024 * unitsPerOne ≤ num * unitsPerOne := Nat.mul_le_mul_right _ h
    rwa [Nat.mul_assoc, pow2_mul_unitsPerOne, Nat.mul_comm] at hmul
  generalize hN : num * unitsPerOne / den = N at hunits
  have hpos : N ≠ 0 := by
    have := pow2_pos (1024 + 1074)
    omega
  have hlog : 1024 + 1074 ≤ N.log2 := le_log2_of_pow2_le hunits
  -- the significand keeps its highest bit, and rounding cannot take it away
  have hround : binade ≤ roundHalfEven (num * unitsPerOne) (den * pow2 (scaleOf N)) := by
    refine Nat.le_trans ?_ (div_le_roundHalfEven _ _)
    rw [← Nat.div_div_eq_div_mul, hN, Nat.le_div_iff_mul_le (pow2_pos _)]
    have hlog2 : 52 + scaleOf N = N.log2 := by
      unfold scaleOf
      omega
    have hpow : binade * pow2 (scaleOf N) = pow2 N.log2 := by
      rw [← hlog2, pow2_add]
      rfl
    rw [hpow]
    exact Nat.log2_self_le hpos
  have hrank : nearestRank num den = infiniteRank := by
    unfold nearestRank
    simp only
    rw [hN]
    have hscale : 2046 ≤ scaleOf N := by
      unfold scaleOf
      omega
    have hmul : 2046 * binade ≤ scaleOf N * binade := Nat.mul_le_mul_right _ hscale
    have hinfinite : infiniteRank = 2046 * binade + binade := Nat.succ_mul 2046 binade
    exact Nat.min_eq_right (by omega)
  unfold nearest infinity
  simp only [hrank]

/-- Far below the least positive double a ratio of digits to a power of ten rounds to zero. -/
theorem nearest_eq_zero_of_lt {n len k : Nat} (hn : n < pow10 len) (hk : len + 400 ≤ k) :
    nearest n (pow10 k) = zero := by
  apply nearest_eq_zero
  have hunits : 2 * unitsPerOne ≤ pow10 400 := by
    have htwo : pow2 1 = 2 := rfl
    rw [← htwo, pow2_mul_unitsPerOne]
    exact Nat.le_trans (pow2_mono (by decide)) (pow2_le_pow10 400)
  calc 2 * (n * unitsPerOne) = n * (2 * unitsPerOne) := Nat.mul_left_comm ..
    _ ≤ n * pow10 400 := Nat.mul_le_mul_left n hunits
    _ < pow10 len * pow10 400 := Nat.mul_lt_mul_of_pos_right hn (pow10_pos 400)
    _ = pow10 (len + 400) := (pow10_add len 400).symm
    _ ≤ pow10 k := pow10_mono hk

/-- Far above the greatest double it rounds to infinity. -/
theorem nearest_eq_infinity_of_le {n k : Nat} (hn : pow10 (k + 400) ≤ n) :
    nearest n (pow10 k) = infinity := by
  apply nearest_eq_infinity (pow10_pos k)
  calc pow10 k * pow2 1024 ≤ pow10 k * pow2 (3 * 400) :=
        Nat.mul_le_mul_left _ (pow2_mono (by decide))
    _ ≤ pow10 k * pow10 400 := Nat.mul_le_mul_left _ (pow2_le_pow10 400)
    _ = pow10 (k + 400) := (pow10_add k 400).symm
    _ ≤ n := hn

/-- The shortcuts of reading a numeral change nothing: it is the closest double to its ratio. -/
theorem ofNumeral_eq_nearest (n k : Nat) : ofNumeral ⟨n, -(k : Int)⟩ = nearest n (pow10 k) := by
  unfold ofNumeral
  simp only
  generalize hlen : (decimalDigits n).length = len
  have hpoint : Numeral.point ⟨n, -(k : Int)⟩ = (len : Int) - k := by
    rw [Numeral.point, hlen]
    rfl
  have hpos : 0 < len := by
    rw [← hlen]
    exact Nat.length_toDigits_pos
  have hdigits : ∀ m, 0 < m → (len ≤ m ↔ n < pow10 m) := by
    intro m hm
    rw [← hlen]
    exact Nat.length_toDigits_le_iff (by decide) hm
  split
  · next hsmall =>
    symm
    rcases hsmall with hzero | hsmall
    · apply nearest_eq_zero
      rw [hzero]
      simpa using pow10_pos k
    · rw [hpoint] at hsmall
      exact nearest_eq_zero_of_lt ((hdigits len hpos).mp (Nat.le_refl _)) (by omega)
  · split
    · next hlarge =>
      rw [hpoint] at hlarge
      symm
      apply nearest_eq_infinity_of_le
      have hnot := (hdigits (k + 400) (by omega)).not
      omega
    · -- the power of ten stands below the line unless it is one
      cases k with
      | zero =>
        have hone : n * pow10 0 = n := Nat.mul_one n
        show nearest (n * pow10 0) 1 = nearest n (pow10 0)
        rw [hone]
        rfl
      | succ e => rfl

end Double

/-- Digits with a point among them are the numeral of all the digits, over a power of ten. -/
theorem Numeral.ofChars?_real {a b : List Char} (ha : IsDigits a) (hb : IsDigits b) :
    Numeral.ofChars? (a ++ '.' :: b) = some ⟨ofDecimalDigits (a ++ b), -(b.length : Int)⟩ := by
  have hwhole : (a ++ '.' :: b).span Char.isDigit = (a, '.' :: b) :=
    span_exact ha.2 fun c hc => by
      cases hc
      rfl
  have hfraction : b.span Char.isDigit = (b, []) := by
    have hall : (b ++ []).span Char.isDigit = (b, []) := span_exact hb.2 nofun
    rwa [List.append_nil] at hall
  have hempty : (a.isEmpty && b.isEmpty) = false := by
    rw [List.isEmpty_eq_false_iff.mpr ha.1, Bool.false_and]
  unfold Numeral.ofChars?
  simp only [hwhole, hfraction, hempty]
  rfl

/-- The point tells them from the words for infinity. -/
theorem Double.magnitudeOfChars?_real {a b : List Char} (ha : IsDigits a) (hb : IsDigits b) :
    magnitudeOfChars? (a ++ '.' :: b) =
      some (.nearest (ofDecimalDigits (a ++ b)) (pow10 b.length)) := by
  have hpoint : '.' ∈ (a ++ '.' :: b).map Char.toLower := by
    rw [List.mem_map]
    exact ⟨'.', by simp, by decide⟩
  unfold magnitudeOfChars?
  simp only
  rw [if_neg, Numeral.ofChars?_real ha hb, Option.map_some, ofNumeral_eq_nearest]
  rintro (h | h)
  · rw [h] at hpoint
    exact absurd hpoint (by decide)
  · rw [h] at hpoint
    exact absurd hpoint (by decide)

/-- Digits with a point among them are read as the closest double to their ratio. -/
theorem Double.ofText?_real {a b : List Char} (ha : IsDigits a) (hb : IsDigits b) :
    Double.ofText? (String.ofList (a ++ '.' :: b)) =
      some (.nearest (ofDecimalDigits (a ++ b)) (pow10 b.length)) := by
  have hmagnitude := Double.magnitudeOfChars?_real ha hb
  obtain ⟨c, a, rfl⟩ := List.exists_cons_of_ne_nil ha.1
  have hdigit : c.isDigit = true := ha.2 c List.mem_cons_self
  unfold Double.ofText?
  rw [String.toList_ofList, List.cons_append]
  split
  · next heq =>
    injection heq with hc
    rw [hc] at hdigit
    exact absurd hdigit (by decide)
  · next heq =>
    injection heq with hc
    rw [hc] at hdigit
    exact absurd hdigit (by decide)
  · exact hmagnitude

end MflFrontend
