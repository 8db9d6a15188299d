import MflFrontend.Decimal.Reading
import MflFrontend.Text.Quoted

/-!
# Values

The literal value that a token carries, its text, and the equality of values as numbers.

Two values *agree* when they have the same key. The key of a number is its exact amount, so that
`1`, `1.0` and `true` agree, and so do the two zeros; a text agrees with the same text alone. As
agreement is equality of keys, it is an equivalence.
-/

namespace MflFrontend

/-- The value that a token carries. -/
inductive Value where
  /-- No value. -/
  | none
  /-- A truth value. -/
  | bool (b : Bool)
  /-- A whole number. -/
  | int (n : Int)
  /-- A double. -/
  | real (d : Double)
  /-- A text. -/
  | text (s : String)
  deriving DecidableEq

/-- What equality of values looks at. -/
inductive ValueKey where
  /-- The key of the missing value. -/
  | none
  /-- A number, in units of the least positive double. -/
  | amount (units : Int)
  /-- An infinite number. -/
  | infinite (negative : Bool)
  /-- A text. -/
  | text (s : String)
  deriving DecidableEq

/-- The exact amount of a double, or its infinity. -/
def Double.key (d : Double) : ValueKey :=
  if d.isInfinite then .infinite d.negative
  else .amount (if d.negative then -(d.units : Int) else d.units)

namespace Value

/-- The key of a value; truth values count as zero and one. -/
def key : Value → ValueKey
  | none => .none
  | bool b => .amount (if b then (Double.unitsPerOne : Int) else 0)
  | int n => .amount (n * (Double.unitsPerOne : Int))
  | real d => d.key
  | text s => .text s

/-- Equality of values by amount. -/
def agrees (a b : Value) : Bool := a.key == b.key

/-- Whether the value can be shown: an integer may have too many digits for it. -/
def IsWritable : Value → Prop
  | int n => IsWritableInteger n
  | _ => True

instance (v : Value) : Decidable v.IsWritable :=
  match v with
  | none => .isTrue trivial
  | bool _ => .isTrue trivial
  | int n => inferInstanceAs (Decidable (IsWritableInteger n))
  | real _ => .isTrue trivial
  | text _ => .isTrue trivial

/-- The value as it is shown, if it can be. -/
def display : Value → String
  | none => "None"
  | bool true => "True"
  | bool false => "False"
  | int n => integerText n
  | real d => d.text
  | text s => String.ofList (quoted s.toList)

/-- The value as it is shown, if it can be, where a text needs no quotes. -/
def displayBare : Value → String
  | text s => s
  | v => v.display

end Value

end MflFrontend
