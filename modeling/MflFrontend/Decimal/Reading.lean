import MflFrontend.Decimal.Shortest

/-!
# Reading and writing numbers

Digits are read as a whole number, and a decimal text (`2.5`, `1e22`, `-inf`) as the closest double.
Exponents far outside the range of doubles are answered without computing the power of ten.

Whole numbers and their decimal texts are converted, either way, up to `maxIntegerDigits` digits.
`integerText` is the text of a number that has one; whoever writes a number that may be of any size
has to find out with `IsWritableInteger`, and fails if it has none.
-/

namespace MflFrontend

/-- The largest number of digits with which a whole number is read or written. -/
def maxIntegerDigits : Nat := 4300

/-- The whole number written by decimal digits. -/
def ofDecimalDigits (ds : List Char) : Nat := Nat.ofDigitChars 10 ds 0

/-- Writing a number and reading its digits gives the number back. -/
@[simp] theorem ofDecimalDigits_decimalDigits (n : Nat) :
    ofDecimalDigits (decimalDigits n) = n :=
  Nat.ofDigitChars_toDigits (by decide) (by decide)

/-- The integer's decimal text. -/
def integerDigits (n : Int) : List Char :=
  if n < 0 then '-' :: decimalDigits n.natAbs else decimalDigits n.natAbs

/-- Whether an integer can be written. The sign does not count. -/
def IsWritableInteger (n : Int) : Prop := (decimalDigits n.natAbs).length ≤ maxIntegerDigits

instance (n : Int) : Decidable (IsWritableInteger n) :=
  inferInstanceAs (Decidable (_ ≤ _))

/-- A number has at most so many digits if it is less than the power of ten with as many zeros. -/
theorem length_decimalDigits_le_iff {n k : Nat} (hk : 0 < k) :
    (decimalDigits n).length ≤ k ↔ n < pow10 k :=
  Nat.length_toDigits_le_iff (by decide) hk

theorem isWritableInteger_iff (n : Int) :
    IsWritableInteger n ↔ n.natAbs < pow10 maxIntegerDigits :=
  length_decimalDigits_le_iff (by decide)

/-- The decimal text of an integer that can be written. -/
def integerText (n : Int) : String := String.ofList (integerDigits n)

/-- What is answered where an integer cannot be written. -/
def unwritableIntegerMessage : String :=
  "Exceeds the limit (" ++ integerText maxIntegerDigits ++
    " digits) for integer string conversion; use sys.set_int_max_str_digits() to increase the limit"

/-- The integer written by an optional minus sign and at least one digit. -/
def integerOfChars? : List Char → Option Int
  | '-' :: ds =>
    if ds.isEmpty || !ds.all Char.isDigit then none else some (-(ofDecimalDigits ds : Int))
  | ds => if ds.isEmpty || !ds.all Char.isDigit then none else some (ofDecimalDigits ds)

namespace Numeral

/-- The integer written by an optional sign and at least one digit. -/
def exponentOfChars? : List Char → Option Int
  | '+' :: ds => if ds.head? == some '-' then none else integerOfChars? ds
  | ds => integerOfChars? ds

/-- The numeral written by digits with at most one point among them and an optional exponent. -/
def ofChars? (cs : List Char) : Option Numeral :=
  let (whole, rest) := cs.span Char.isDigit
  let (fraction, rest) :=
    match rest with
    | '.' :: rest => rest.span Char.isDigit
    | rest => ([], rest)
  let coefficient := ofDecimalDigits (whole ++ fraction)
  if whole.isEmpty && fraction.isEmpty then none
  else
    match rest with
    | [] => some ⟨coefficient, -fraction.length⟩
    | c :: rest =>
      if c.toLower = 'e' then
        (exponentOfChars? rest).map fun e => ⟨coefficient, e - fraction.length⟩
      else none

end Numeral

namespace Double

/-- The double closest to a numeral. A numeral whose point lies hundreds of places away from its
first digit is infinite or zero whatever its digits are. -/
def ofNumeral (n : Numeral) : Double :=
  if n.coefficient = 0 ∨ n.point < -400 then zero
  else if 400 < n.point then infinity
  else
    match n.exponent with
    | .ofNat e => nearest (n.coefficient * pow10 e) 1
    | .negSucc e => nearest n.coefficient (pow10 (e + 1))

/-- The double written without a sign. -/
def magnitudeOfChars? (cs : List Char) : Option Double :=
  let lower := cs.map Char.toLower
  if lower = ['i', 'n', 'f'] ∨ lower = ['i', 'n', 'f', 'i', 'n', 'i', 't', 'y'] then some infinity
  else (Numeral.ofChars? cs).map ofNumeral

/-- The double that a decimal text stands for. -/
def ofText? (s : String) : Option Double :=
  match s.toList with
  | '-' :: cs => (magnitudeOfChars? cs).map neg
  | '+' :: cs => magnitudeOfChars? cs
  | cs => magnitudeOfChars? cs

end Double

end MflFrontend
