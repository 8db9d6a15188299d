import MflFrontend.Text.Utf8
import Mathlib.Tactic.Common

/-!
# Decoding what was encoded

The decoder gives back every text from its bytes. The bytes of one character are an opening byte,
which fixes how many are to follow and in which range the next one lies, and six bits in each byte
behind it; a text is decoded one character after the other.
-/

namespace MflFrontend

namespace Utf8

/-! ## Opening bytes -/

theorem toNat_ofNat {n : Nat} (h : n < 256) : (UInt8.ofNat n).toNat = n :=
  UInt8.toNat_ofNat_of_lt' h

theorem opening_one {v : Nat} (h : v < 0x80) (position : Nat) :
    opening position (UInt8.ofNat v) = .whole (Char.ofNat v) := by
  unfold opening
  simp only [toNat_ofNat (Nat.lt_trans h (by decide : 0x80 < 256)), h, if_true]

/-- The opening byte of two holds the high bits. -/
theorem opening_two {v : Nat} (hlow : 0x80 ≤ v) (hhigh : v < 0x800) (position : Nat) :
    opening position (UInt8.ofNat (v / 64 % 32 + 192)) =
      .longer ⟨position, UInt8.ofNat (v / 64 % 32 + 192), 1, 0, 0x80, 0xbf, v / 64⟩ := by
  have hv : v / 64 % 32 = v / 64 := by omega
  unfold opening
  simp only [toNat_ofNat (by omega : v / 64 % 32 + 192 < 256)]
  rw [if_neg (by omega), if_neg (by omega), if_pos (by omega)]
  rw [hv, Nat.add_sub_cancel]

/-- The opening byte of three leaves out short forms and surrogates by the range of the next. -/
theorem opening_three {v : Nat} (hlow : 0x800 ≤ v) (hhigh : v < 0x10000)
    (hscalar : v < 0xd800 ∨ 0xdfff < v) (position : Nat) :
    ∃ low high, opening position (UInt8.ofNat (v / 4096 % 16 + 224)) =
        .longer ⟨position, UInt8.ofNat (v / 4096 % 16 + 224), 1, 1, low, high, v / 4096⟩ ∧
      low ≤ v / 64 % 64 + 128 ∧ v / 64 % 64 + 128 ≤ high := by
  have hv : v / 4096 % 16 = v / 4096 := by omega
  unfold opening
  simp only [toNat_ofNat (by omega : v / 4096 % 16 + 224 < 256)]
  rw [if_neg (by omega), if_neg (by omega), if_neg (by omega), hv]
  by_cases hfirst : v / 4096 + 224 = 0xe0
  · rw [if_pos hfirst]
    exact ⟨_, _, by rw [(by omega : v / 4096 = 0)], by omega, by omega⟩
  · rw [if_neg hfirst]
    by_cases hlast : v / 4096 + 224 = 0xed
    · rw [if_pos hlast]
      exact ⟨_, _, by rw [(by omega : v / 4096 = 0xd)], by omega, by omega⟩
    · rw [if_neg hlast, if_pos (by omega), Nat.add_sub_cancel]
      exact ⟨_, _, rfl, by omega, by omega⟩

/-- The opening byte of four leaves out short forms and numbers that are too large. -/
theorem opening_four {v : Nat} (hlow : 0x10000 ≤ v) (hhigh : v < 0x110000) (position : Nat) :
    ∃ low high, opening position (UInt8.ofNat (v / 262144 % 8 + 240)) =
        .longer ⟨position, UInt8.ofNat (v / 262144 % 8 + 240), 1, 2, low, high, v / 262144⟩ ∧
      low ≤ v / 4096 % 64 + 128 ∧ v / 4096 % 64 + 128 ≤ high := by
  have hv : v / 262144 % 8 = v / 262144 := by omega
  unfold opening
  simp only [toNat_ofNat (by omega : v / 262144 % 8 + 240 < 256)]
  rw [if_neg (by omega), if_neg (by omega), if_neg (by omega), if_neg (by omega), if_neg (by omega),
    if_neg (by omega), hv]
  by_cases hfirst : v / 262144 + 240 = 0xf0
  · rw [if_pos hfirst]
    exact ⟨_, _, by rw [(by omega : v / 262144 = 0)], by omega, by omega⟩
  · rw [if_neg hfirst]
    by_cases hlast : v / 262144 + 240 < 0xf4
    · rw [if_pos hlast, Nat.add_sub_cancel]
      exact ⟨_, _, rfl, by omega, by omega⟩
    · rw [if_neg hlast, if_pos (by omega)]
      exact ⟨_, _, by rw [(by omega : v / 262144 = 4)], by omega, by omega⟩

/-! ## Bytes behind them -/

section Continuation

variable {position start n low high bits : Nat} {first : UInt8} {taken : Nat} (bs : List UInt8)
  (hlow : low ≤ n + 128) (hhigh : n + 128 ≤ high) (hn : n < 64)

include hlow hhigh hn

/-- A byte in the range brings six more bits; the next one may be any that continues. -/
theorem decodeFrom_further (owed : Nat) :
    decodeFrom position (some ⟨start, first, taken, owed + 1, low, high, bits⟩)
        (UInt8.ofNat (n + 128) :: bs) =
      decodeFrom (position + 1)
        (some ⟨start, first, taken + 1, owed, 0x80, 0xbf, bits * 64 + n⟩) bs := by
  have hbyte := toNat_ofNat (by omega : n + 128 < 256)
  rw [decodeFrom]
  simp only [hbyte, Nat.add_sub_cancel]
  rw [if_neg (by omega)]

/-- The last byte that is owed closes the character. -/
theorem decodeFrom_last :
    decodeFrom position (some ⟨start, first, taken, 0, low, high, bits⟩)
        (UInt8.ofNat (n + 128) :: bs) =
      (decodeFrom (position + 1) none bs).map (Char.ofNat (bits * 64 + n) :: ·) := by
  have hbyte := toNat_ofNat (by omega : n + 128 < 256)
  rw [decodeFrom]
  simp only [hbyte, Nat.add_sub_cancel]
  rw [if_neg (by omega)]

end Continuation

/-! ## Characters and texts -/

theorem decodeFrom_longer {position : Nat} {b : UInt8} {p : OpenCharacter}
    (h : opening position b = .longer p) (bs : List UInt8) :
    decodeFrom position none (b :: bs) = decodeFrom (position + 1) (some p) bs := by
  rw [decodeFrom]
  simp only [h]

/-- The bytes of a character are decoded as it, whatever follows. -/
theorem decodeFrom_encodeChar (c : Char) (position : Nat) (bs : List UInt8) :
    ∃ position', decodeFrom position none (String.utf8EncodeChar c ++ bs) =
      (decodeFrom position' none bs).map (c :: ·) := by
  have hscalar : c.val.toNat < 0xd800 ∨ 0xdfff < c.val.toNat ∧ c.val.toNat < 0x110000 := c.valid
  have hchar : Char.ofNat c.val.toNat = c := Char.ofNat_toNat c
  generalize hv : c.val.toNat = v at hscalar hchar
  unfold String.utf8EncodeChar
  simp only [hv]
  -- one form for each number of bytes; the value is put together from its digits to base 64
  split
  · next hone =>
    refine ⟨position + 1, ?_⟩
    rw [List.singleton_append, decodeFrom]
    simp only [opening_one (by omega : v < 0x80), hchar]
  split
  · next hone htwo =>
    have hvalue : v / 64 * 64 + v % 64 = v := by omega
    refine ⟨position + 1 + 1, ?_⟩
    simp only [List.cons_append, List.nil_append]
    rw [decodeFrom_longer (opening_two (by omega) (by omega) position),
      decodeFrom_last bs (by omega) (by omega) (by omega), hvalue, hchar]
  split
  · next hone htwo hthree =>
    obtain ⟨low, high, hopening, hlow, hhigh⟩ :=
      opening_three (v := v) (by omega) (by omega) (by omega) position
    have hvalue : (v / 4096 * 64 + v / 64 % 64) * 64 + v % 64 = v := by omega
    refine ⟨position + 1 + 1 + 1, ?_⟩
    simp only [List.cons_append, List.nil_append]
    rw [decodeFrom_longer hopening, decodeFrom_further _ hlow hhigh (by omega),
      decodeFrom_last bs (by omega) (by omega) (by omega), hvalue, hchar]
  · next hone htwo hthree =>
    obtain ⟨low, high, hopening, hlow, hhigh⟩ :=
      opening_four (v := v) (by omega) (by omega) position
    have hvalue : ((v / 262144 * 64 + v / 4096 % 64) * 64 + v / 64 % 64) * 64 + v % 64 = v := by
      omega
    refine ⟨position + 1 + 1 + 1 + 1, ?_⟩
    simp only [List.cons_append, List.nil_append]
    rw [decodeFrom_longer hopening, decodeFrom_further _ hlow hhigh (by omega),
      decodeFrom_further _ (by omega) (by omega) (by omega),
      decodeFrom_last bs (by omega) (by omega) (by omega), hvalue, hchar]

theorem decodeFrom_encode (cs : List Char) (position : Nat) :
    decodeFrom position none (cs.flatMap String.utf8EncodeChar) = .ok cs := by
  induction cs generalizing position with
  | nil => rfl
  | cons c cs ih =>
    obtain ⟨position', hc⟩ :=
      decodeFrom_encodeChar c position (cs.flatMap String.utf8EncodeChar)
    rw [List.flatMap_cons, hc, ih]
    rfl

/-- Every text is decoded from its bytes. -/
theorem decode_toUTF8 (t : String) : decode t.toUTF8.data.toList = .ok t.toList := by
  have hbytes : t.toUTF8.data.toList = t.toList.flatMap String.utf8EncodeChar := by
    have hencode : t.toList.utf8Encode = t.toByteArray := String.utf8Encode_toList
    show t.toByteArray.data.toList = _
    rw [← hencode]
    exact List.toList_data_toByteArray
  rw [decode, hbytes, decodeFrom_encode]

end Utf8

end MflFrontend
