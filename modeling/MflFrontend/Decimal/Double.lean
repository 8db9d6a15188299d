/-!
# Doubles, exactly

A double is a sign and a *rank*: the magnitudes are numbered in order of size, `0` being zero and
`Double.infiniteRank` infinity. There is no value that differs from itself, so equality of doubles
is decidable and is equality of the two fields.

Every finite double is a whole multiple of the least positive one, `2 ^ (-1074)`. That multiple is
`Double.units`, and all arithmetic on doubles in this library is arithmetic on it.

`Double.nearest` rounds a ratio of natural numbers to the closest double, a tie going to the even
significand and anything from half a step beyond the largest finite double to infinity.
-/

namespace MflFrontend

/-- A power of two. -/
def pow2 (n : Nat) : Nat := Nat.pow 2 n

/-- A power of ten. -/
def pow10 (n : Nat) : Nat := Nat.pow 10 n

/-- How many magnitudes there are from one power of two up to the next: fifty-two bits of a
significand are free, the highest is not. -/
def Double.binade : Nat := 0x10000000000000

/-- The rank of infinity; the finite magnitudes come before it. -/
def Double.infiniteRank : Nat := 2047 * Double.binade

/-- A double-precision number: finite of either sign (so there are two zeros), or infinite. -/
structure Double where
  /-- Whether the number carries a minus sign. -/
  negative : Bool
  /-- The place of the magnitude in the order of all magnitudes. -/
  rank : Nat
  /-- No magnitude lies beyond infinity. -/
  rank_le : rank ≤ Double.infiniteRank
  deriving DecidableEq

namespace Double

/-- The positive zero. -/
def zero : Double := ⟨false, 0, by decide⟩

/-- Positive infinity. -/
def infinity : Double := ⟨false, infiniteRank, by decide⟩

/-- The number with the opposite sign. -/
def neg (d : Double) : Double := { d with negative := !d.negative }

/-- Whether the number is one of the two infinities. -/
def isInfinite (d : Double) : Bool := d.rank == infiniteRank

/-- How many times the step between neighbours has doubled at this magnitude. -/
def scale (d : Double) : Nat := d.rank / binade - 1

/-- The significand: the magnitude in steps of `pow2 scale` units. -/
def significand (d : Double) : Nat :=
  if d.rank < binade then d.rank else binade + d.rank % binade

/-- The magnitude as a multiple of the least positive double. -/
def units (d : Double) : Nat := d.significand * pow2 d.scale

/-- How many units make up the number one. -/
def unitsPerOne : Nat := pow2 1074

/-- The quotient `num / den` rounded to a whole number, a half going to the even neighbour. -/
def roundHalfEven (num den : Nat) : Nat :=
  let q := num / den
  let r := num % den
  if 2 * r < den then q else if den < 2 * r then q + 1 else q + q % 2

/-- The scale at which a magnitude of `n` whole units has fifty-three significant bits, or `0` if it
has fewer. -/
def scaleOf (n : Nat) : Nat := n.log2 - 52

/-- The rank of the magnitude closest to `num / den`. A significand that is rounded up to
two binades lands on the first rank of the next scale by itself. -/
def nearestRank (num den : Nat) : Nat :=
  let s := scaleOf (num * unitsPerOne / den)
  min (s * binade + roundHalfEven (num * unitsPerOne) (den * pow2 s)) infiniteRank

/-- The nonnegative double closest to `num / den`. -/
def nearest (num den : Nat) : Double :=
  ⟨false, nearestRank num den, Nat.min_le_right _ _⟩

end Double

end MflFrontend
