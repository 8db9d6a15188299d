import MflFrontend.Decimal.Double

/-!
# The shortest decimal that reads back

A double is written with the fewest decimal digits that `Double.nearest` reads back as the same
double. On the grid of `n` significant digits the two neighbours of the exact value are tried, for
`n` from one to seventeen. Of two neighbours that both read back the nearer is taken, and a tie goes
to the even one. Seventeen digits are always enough; the exact expansion stands behind them, so that
the function is total without an argument to that effect.

The layout is positional for decimal exponents from `-4` to `15`, always with a point, and in
scientific notation otherwise.
-/

namespace MflFrontend

/-- A decimal numeral: `coefficient * 10 ^ exponent`. -/
structure Numeral where
  /-- The digits, read as one whole number. -/
  coefficient : Nat
  /-- The power of ten that the last digit counts. -/
  exponent : Int
  deriving DecidableEq

/-- The decimal digits of a number, the highest first. -/
def decimalDigits (n : Nat) : List Char := Nat.toDigits 10 n

namespace Double

/-- Before digits are cut off, values are scaled by this power of ten. It brings even the least
positive double above `10 ^ 17`. -/
def headroom : Nat := 400

/-- The double's magnitude times `10 ^ headroom`, as a numerator over `unitsPerOne`. -/
def scaledUnits (d : Double) : Nat := d.units * pow10 headroom

/-- How many digits the scaled magnitude has before its point. -/
def scaledLength (d : Double) : Nat := (decimalDigits (d.scaledUnits / unitsPerOne)).length

/-- Whether `c` steps of `10 ^ (g - headroom)` read back as the magnitude of `d`. -/
def readsBack (d : Double) (g c : Nat) : Bool :=
  nearestRank (c * pow10 g) (pow10 headroom) == d.rank

/-- The neighbour of `d` on the grid of step `10 ^ (g - headroom)` that reads back, the nearer first
and the even one in a tie. -/
def onGrid? (d : Double) (g : Nat) : Option Numeral :=
  let step := unitsPerOne * pow10 g
  let below := d.scaledUnits / step
  let excess := d.scaledUnits % step
  let belowFirst := 2 * excess < step || (2 * excess == step && below % 2 == 0)
  let order :=
    if excess == 0 then [below] else if belowFirst then [below, below + 1] else [below + 1, below]
  (order.find? fun c => d.readsBack g c).map fun c => ⟨c, (g : Int) - headroom⟩

/-- The exact value of a finite double: a power of two below the point is a power of five with the
point moved. -/
def exactNumeral (d : Double) : Numeral := ⟨d.units * Nat.pow 5 1074, -1074⟩

/-- The shortest numeral that reads back as the magnitude of `d`. -/
def shortest (d : Double) : Numeral :=
  ((List.range 17).findSome? fun i => d.onGrid? (d.scaledLength - (i + 1))).getD d.exactNumeral

end Double

namespace Numeral

/-- The digits without the zeros at their end. -/
def digits (n : Numeral) : List Char :=
  ((decimalDigits n.coefficient).reverse.dropWhile (· == '0')).reverse

/-- Where the point stands, counted from before the first digit. -/
def point (n : Numeral) : Int := (decimalDigits n.coefficient).length + n.exponent

/-- Digits and point written out in full; at least one digit stands on either side of the point. -/
def positional (n : Numeral) : List Char :=
  let ds := n.digits
  if n.point ≤ 0 then
    ['0', '.'] ++ List.replicate (-n.point).toNat '0' ++ ds
  else
    let whole := n.point.toNat
    let fraction := ds.drop whole
    ds.take whole ++ List.replicate (whole - ds.length) '0' ++ ['.'] ++
      if fraction.isEmpty then ['0'] else fraction

/-- One digit before the point, and an exponent with its sign and at least two digits. -/
def scientific (n : Numeral) : List Char :=
  let e := n.point - 1
  let power := decimalDigits e.natAbs
  let mantissa :=
    match n.digits with
    | [] => ['0']
    | [d] => [d]
    | d :: ds => d :: '.' :: ds
  mantissa ++ ['e', if e < 0 then '-' else '+'] ++
    (if power.length < 2 then '0' :: power else power)

/-- The text of a numeral: positional for decimal exponents from `-4` to `15`. -/
def layout (n : Numeral) : List Char :=
  if -4 < n.point ∧ n.point ≤ 16 then n.positional else n.scientific

end Numeral

namespace Double

/-- The text of a magnitude. -/
def magnitudeText (d : Double) : List Char :=
  if d.isInfinite then ['i', 'n', 'f']
  else if d.rank = 0 then ['0', '.', '0']
  else d.shortest.layout

/-- The text of a double: the shortest decimal that reads back, with its sign. -/
def text (d : Double) : String :=
  String.ofList (if d.negative then '-' :: d.magnitudeText else d.magnitudeText)

end Double

end MflFrontend
