import MflFrontend.Proofs.Decimal.Literal

/-!
# The closest double

The double closest to a ratio depends on the ratio alone, every double is closest to its own amount,
and a numeral is read as the double closest to what it stands for. The shortest numeral of a double
is therefore read as that double, whichever of the grids it was found on.
-/

namespace MflFrontend

namespace Double

/-! ## Ratios -/

theorem roundHalfEven_mul {k : Nat} (hk : 0 < k) (num den : Nat) :
    roundHalfEven (k * num) (k * den) = roundHalfEven num den := by
  have hless : ∀ m n : Nat, k * m < k * n ↔ m < n := fun m n => Nat.mul_lt_mul_left hk
  unfold roundHalfEven
  simp only
  rw [Nat.mul_div_mul_left _ _ hk, Nat.mul_mod_mul_left, Nat.mul_left_comm 2 k]
  simp only [hless]

/-- A whole number of steps is rounded to itself. -/
theorem roundHalfEven_exact (n : Nat) {den : Nat} (hden : 0 < den) :
    roundHalfEven (n * den) den = n := by
  unfold roundHalfEven
  simp only
  rw [Nat.mul_div_cancel _ hden, Nat.mul_mod_left, if_pos (by omega)]

theorem nearestRank_mul {k : Nat} (hk : 0 < k) (num den : Nat) :
    nearestRank (k * num) (k * den) = nearestRank num den := by
  unfold nearestRank
  simp only
  rw [Nat.mul_assoc, Nat.mul_div_mul_left _ _ hk, Nat.mul_assoc k den, roundHalfEven_mul hk]

/-- Equal ratios have the same closest double. -/
theorem nearestRank_eq_of_ratio {a b c d : Nat} (hb : 0 < b) (hd : 0 < d) (h : a * d = c * b) :
    nearestRank a b = nearestRank c d := by
  rw [← nearestRank_mul hd a b, ← nearestRank_mul hb c d, Nat.mul_comm d a, h, Nat.mul_comm c b,
    Nat.mul_comm d b]

/-! ## Doubles are closest to themselves -/

theorem log2_mul_pow2 {m s : Nat} (hlow : pow2 52 ≤ m) (hhigh : m < pow2 53) :
    (m * pow2 s).log2 = 52 + s := by
  have hpos : m * pow2 s ≠ 0 :=
    Nat.ne_of_gt (Nat.mul_pos (Nat.lt_of_lt_of_le (pow2_pos 52) hlow) (pow2_pos s))
  have hstep : pow2 (52 + s + 1) = pow2 53 * pow2 s := by
    rw [← pow2_add]
    congr 1
    omega
  refine (Nat.log2_eq_iff hpos).mpr ⟨?_, ?_⟩
  · show pow2 (52 + s) ≤ m * pow2 s
    rw [pow2_add]
    exact Nat.mul_le_mul_right _ hlow
  · show m * pow2 s < pow2 (52 + s + 1)
    rw [hstep]
    exact Nat.mul_lt_mul_of_pos_right hhigh (pow2_pos s)

/-- The scale and the significand are those of the amount, and they make up the rank. -/
theorem scaleOf_units (d : Double) :
    scaleOf d.units = d.scale ∧ d.scale * binade + d.significand = d.rank := by
  have hbinade : binade = pow2 52 := rfl
  by_cases hsmall : d.rank < binade
  · have hscale : d.scale = 0 := by
      rw [scale, Nat.div_eq_of_lt hsmall]
    have hsignificand : d.significand = d.rank := if_pos hsmall
    have hunits : d.units = d.rank := by
      rw [units, hsignificand, hscale]
      exact Nat.mul_one _
    refine ⟨?_, by rw [hscale, hsignificand, Nat.zero_mul, Nat.zero_add]⟩
    rw [hunits, hscale, scaleOf]
    by_cases hzero : d.rank = 0
    · rw [hzero]
      rfl
    · have hlog : d.rank.log2 < 52 := (Nat.log2_lt hzero).mpr hsmall
      omega
  · have hsignificand : d.significand = binade + d.rank % binade := if_neg hsmall
    have hmod : d.rank % binade < binade := Nat.mod_lt _ (by decide)
    have hdivmod := Nat.div_add_mod d.rank binade
    have hdiv : 1 ≤ d.rank / binade := (Nat.le_div_iff_mul_le (by decide)).mpr (by omega)
    constructor
    · rw [scaleOf, units, log2_mul_pow2 (by omega), Nat.add_sub_cancel_left]
      rw [hsignificand]
      show _ < 2 * binade
      omega
    · obtain ⟨q, hq⟩ : ∃ q, d.rank / binade = q + 1 := ⟨d.rank / binade - 1, by omega⟩
      rw [hsignificand, scale, hq, Nat.add_sub_cancel]
      rw [hq, Nat.mul_comm, Nat.succ_mul] at hdivmod
      omega

theorem unitsPerOne_pos : 0 < unitsPerOne := pow2_pos 1074

/-- A double is closest to its own amount. -/
theorem nearestRank_units (d : Double) : nearestRank d.units unitsPerOne = d.rank := by
  obtain ⟨hscale, hrank⟩ := d.scaleOf_units
  unfold nearestRank
  simp only
  rw [Nat.mul_div_cancel _ unitsPerOne_pos, hscale, Nat.mul_comm d.units,
    roundHalfEven_mul unitsPerOne_pos]
  rw [units, roundHalfEven_exact _ (pow2_pos _), hrank]
  exact Nat.min_eq_left d.rank_le

end Double

/-! ## Numerals -/

/-- The double closest to what a numeral stands for. -/
def Numeral.closest (n : Numeral) : Double :=
  .nearest (n.coefficient * pow10 n.exponent.toNat) (pow10 (-n.exponent).toNat)

namespace Double

theorem closest_rank (n : Numeral) : n.closest.rank =
    nearestRank (n.coefficient * pow10 n.exponent.toNat) (pow10 (-n.exponent).toNat) := rfl

theorem nearest_zero {den : Nat} (hden : 0 < den) : nearest 0 den = zero :=
  nearest_eq_zero (by rwa [Nat.zero_mul, Nat.mul_zero])

theorem closest_zero (e : Int) : Numeral.closest ⟨0, e⟩ = zero := by
  have hnone : 0 * pow10 e.toNat = 0 := Nat.zero_mul _
  unfold Numeral.closest
  rw [hnone, nearest_zero (pow10_pos _)]

/-- Zeros at the end of a coefficient count as much as a greater exponent. -/
theorem closest_mul_pow10 (c t : Nat) (e : Int) :
    Numeral.closest ⟨c * pow10 t, e⟩ = Numeral.closest ⟨c, e + t⟩ := by
  have hrank : (Numeral.closest ⟨c * pow10 t, e⟩).rank = (Numeral.closest ⟨c, e + t⟩).rank := by
    refine nearestRank_eq_of_ratio (pow10_pos _) (pow10_pos _) ?_
    simp only [Nat.mul_assoc, ← pow10_add]
    congr 2
    omega
  unfold Numeral.closest nearest at *
  simp only at hrank
  simp only [hrank]

theorem closest_natCast (c e : Nat) : Numeral.closest ⟨c, e⟩ = nearest (c * pow10 e) 1 := by
  have hnone : (-(e : Int)).toNat = 0 := by omega
  unfold Numeral.closest
  simp only [Int.toNat_natCast, hnone]
  rfl

theorem closest_neg_natCast (c k : Nat) :
    Numeral.closest ⟨c, -(k : Int)⟩ = nearest c (pow10 k) := by
  have hnone : (-(k : Int)).toNat = 0 := by omega
  have hone : c * pow10 0 = c := Nat.mul_one c
  unfold Numeral.closest
  simp only [Int.neg_neg, Int.toNat_natCast, hnone, hone]

/-- A number is at least the power of ten with as many digits. -/
theorem pow10_le_of_digits {c : Nat} (hc : c ≠ 0) : pow10 ((decimalDigits c).length - 1) ≤ c := by
  have hpos : 0 < (decimalDigits c).length := Nat.length_toDigits_pos
  rcases Nat.eq_or_lt_of_le hpos with hone | hmore
  · rw [← hone]
    exact Nat.pos_of_ne_zero hc
  · have hshorter : ¬ (decimalDigits c).length ≤ (decimalDigits c).length - 1 := by omega
    have hdigits := length_decimalDigits_le_iff (n := c) (Nat.sub_pos_of_lt hmore)
    exact Nat.le_of_not_lt (hdigits.not.mp hshorter)

theorem ofNumeral_natCast (c e : Nat) : ofNumeral ⟨c, e⟩ = nearest (c * pow10 e) 1 := by
  unfold ofNumeral
  simp only
  split
  · next hsmall =>
    rcases hsmall with rfl | hsmall
    · rw [Nat.zero_mul, nearest_zero (by decide)]
    · unfold Numeral.point at hsmall
      simp only at hsmall
      omega
  · next hnot =>
    split
    · next hlarge =>
      unfold Numeral.point at hlarge
      simp only at hlarge
      symm
      apply nearest_eq_infinity_of_le (k := 0)
      calc pow10 (0 + 400) ≤ pow10 ((decimalDigits c).length - 1 + e) := pow10_mono (by omega)
        _ = pow10 ((decimalDigits c).length - 1) * pow10 e := pow10_add ..
        _ ≤ c * pow10 e := Nat.mul_le_mul_right _ (pow10_le_of_digits fun h => hnot (.inl h))
    · rfl

/-- Reading a numeral takes shortcuts, which change nothing: it is the closest double. -/
theorem ofNumeral_eq_closest (n : Numeral) : ofNumeral n = n.closest := by
  obtain ⟨c, e⟩ := n
  rcases Int.le_total 0 e with he | he
  · obtain ⟨e, rfl⟩ := Int.eq_ofNat_of_zero_le he
    rw [closest_natCast, ofNumeral_natCast]
  · obtain ⟨k, rfl⟩ : ∃ k : Nat, e = -(k : Int) := ⟨e.natAbs, by omega⟩
    rw [closest_neg_natCast, ofNumeral_eq_nearest]

/-! ## Shortest numerals -/

/-- What is found on a grid reads back. -/
theorem onGrid?_closest {d : Double} {g : Nat} {n : Numeral} (h : d.onGrid? g = some n) :
    n.closest.rank = d.rank := by
  rw [onGrid?, Option.map_eq_some_iff] at h
  obtain ⟨c, hc, rfl⟩ := h
  have hreads : d.readsBack g c = true := List.find?_some hc
  unfold readsBack at hreads
  rw [← eq_of_beq hreads]
  generalize headroom = k
  rw [closest_rank]
  refine nearestRank_eq_of_ratio (pow10_pos _) (pow10_pos _) ?_
  simp only [Nat.mul_assoc, ← pow10_add]
  congr 2
  omega

/-- A power of two below the line is a power of five above it and a power of ten below. -/
theorem closest_mul_pow5 (u n : Nat) :
    (Numeral.closest ⟨u * Nat.pow 5 n, -(n : Int)⟩).rank = nearestRank u (pow2 n) := by
  have hten : Nat.pow 5 n * pow2 n = pow10 n := (Nat.mul_pow 5 2 n).symm
  rw [closest_neg_natCast]
  refine nearestRank_eq_of_ratio (pow10_pos n) (pow2_pos n) ?_
  rw [Nat.mul_assoc, hten]

theorem exactNumeral_closest (d : Double) : d.exactNumeral.closest.rank = d.rank := by
  have hplaces : (-1074 : Int) = -((1074 : Nat) : Int) := rfl
  rw [exactNumeral, hplaces]
  -- the power is not to be computed
  generalize hn : (1074 : Nat) = n
  rw [closest_mul_pow5, ← hn]
  exact d.nearestRank_units

/-- The shortest numeral of a double is read as a double of the same magnitude. -/
theorem shortest_closest (d : Double) : d.shortest.closest.rank = d.rank := by
  unfold shortest
  cases hfound : (List.range 17).findSome? fun i => d.onGrid? (d.scaledLength - (i + 1)) with
  | none => exact d.exactNumeral_closest
  | some n =>
    obtain ⟨i, -, hi⟩ := List.exists_of_findSome?_eq_some hfound
    exact onGrid?_closest hi

end Double

end MflFrontend
