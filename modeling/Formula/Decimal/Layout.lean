/-
How digits are laid out as text.  Digits from the fourth place after the
point up to a bound before it are written positionally; beyond that the
first digit is set apart and the power of ten follows it, with a sign and
two digits at least.
-/
import Formula.Decimal.Digits

namespace Formula.Decimal

/-- The choices of a way of writing numbers. -/
structure Layout where
  /-- Positional writing ends at this power of ten. -/
  bound : Int
  /-- Whether a whole number written positionally carries a `.0`. -/
  pointed : Bool

namespace Layout

/-- A point and the digits behind it, if there are any. -/
def fraction (digits : List Char) : List Char :=
  if digits.isEmpty then [] else '.' :: digits

/-- Digits in their places, filled up with zeros. -/
def positional (l : Layout) (digits : List Char) (exponent : Int) : List Char :=
  let width := (exponent + 1).toNat
  let whole := digits.take width ++ List.replicate (width - digits.length) '0'
  let part := List.replicate (-(exponent + 1)).toNat '0' ++ digits.drop width
  (if whole.isEmpty then ['0'] else whole)
    ++ (if part.isEmpty && l.pointed then ['.', '0'] else fraction part)

/-- The first digit, the others behind a point, and the power of ten. -/
def scientific (digits : List Char) (exponent : Int) : List Char :=
  let power := Nat.toDigits 10 exponent.natAbs
  digits.take 1 ++ fraction (digits.drop 1)
    ++ ['e', if exponent < 0 then '-' else '+']
    ++ List.replicate (2 - power.length) '0' ++ power

/-- Writes digits by the layout's rule. -/
def write (l : Layout) (d : Digits) : List Char :=
  if -4 ≤ d.exponent && d.exponent < l.bound then l.positional d.chars d.exponent
  else scientific d.chars d.exponent

end Layout

end Formula.Decimal
