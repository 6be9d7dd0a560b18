/-
Decimal digits of exact quantities.  A positive quantity comes as a ratio
of whole numbers; `significant` rounds it to a number of digits and
`shortest` finds the fewest digits that still single out one binary64
number.  Both are decided by comparing whole numbers.
-/
import Formula.Binary64

namespace Formula.Decimal

/-- Decimal digits and where they stand: the first digit of `coefficient`
counts `10 ^ exponent`. -/
structure Digits where
  coefficient : Nat
  exponent : Int

namespace Digits

/-- How many digits a number is written with. -/
def count (n : Nat) : Nat := (Nat.toDigits 10 n).length

/-- The digits of zero. -/
def zero : Digits := ⟨0, 0⟩

/-- A row of digits whose last one counts `10 ^ place`. -/
def ofPlace (coefficient : Nat) (place : Int) : Digits :=
  ⟨coefficient, place + count coefficient - 1⟩

/-- The digits as characters, without zeros at the end. -/
def chars (d : Digits) : List Char :=
  ((Nat.toDigits 10 d.coefficient).reverse.dropWhile (· == '0')).reverse

-- ================================================== ratios of numbers

/-- The ratio multiplied by a power of ten, as numerator and denominator. -/
def scale (num den : Nat) (power : Int) : Nat × Nat :=
  (num * Nat.pow 10 power.toNat, den * Nat.pow 10 (-power).toNat)

/-- The power of ten that the first digit of a positive ratio counts.
The number of digits of the two sides leaves two candidates. -/
def leading (num den : Nat) : Int :=
  let guess : Int := count num - count den
  let (a, b) := scale num den (-guess)
  if b ≤ a then guess else guess - 1

/-- The whole number nearest to a ratio; a tie goes to the even one. -/
def nearest (num den : Nat) : Nat :=
  let q := num / den
  match compare (2 * (num % den)) den with
  | .lt => q
  | .gt => q + 1
  | .eq => q + q % 2

/-- A ratio rounded to `n` digits. -/
def significant (n : Nat) (num den : Nat) : Digits :=
  if num = 0 then zero
  else
    let place := leading num den - (n - 1 : Nat)
    let (a, b) := scale num den (-place)
    ofPlace (nearest a b) place

-- ====================================================== fewest digits

/-- The numbers nearer to one binary64 number than to its neighbours:
from `low` to `high` about `mid`, in units of `2 ^ exponent`, the ends
included when `closed`. -/
structure Basin where
  low : Nat
  mid : Nat
  high : Nat
  exponent : Int
  closed : Bool

/-- The basin of `mantissa * 2 ^ exponent`, in quarters of the last
binary place: a power of two lies nearer to its lower neighbour. -/
def Basin.of (mantissa : Nat) (exponent : Int) : Basin :=
  let below := if mantissa = Nat.pow 2 52 && exponent != Binary64.leastExponent then 1 else 2
  { low := 4 * mantissa - below
    mid := 4 * mantissa
    high := 4 * mantissa + 2
    exponent := exponent - 2
    closed := mantissa % 2 == 0 }

/-- The best row of digits in the basin whose last digit counts
`10 ^ place`, if there is one: of the two next to the middle the nearer,
and of two equally near the even one. -/
def Basin.atPlace? (b : Basin) (place : Int) : Option Digits :=
  -- `d * decimal` and `m * binary` compare `d * 10 ^ place` with `m * 2 ^ exponent`
  let decimal := Nat.pow 10 place.toNat * Nat.pow 2 (-b.exponent).toNat
  let binary := Nat.pow 10 (-place).toNat * Nat.pow 2 b.exponent.toNat
  let holds (d : Nat) : Bool :=
    if b.closed then b.low * binary ≤ d * decimal && d * decimal ≤ b.high * binary
    else b.low * binary < d * decimal && d * decimal < b.high * binary
  let under := b.mid * binary / decimal
  let best := nearest (b.mid * binary) decimal
  let other := if best = under then under + 1 else under
  if holds best then some (ofPlace best place)
  else if holds other then some (ofPlace other place)
  else none

/-- The fewest digits that single out a binary64 number, and of those
the nearest to it; seventeen are always enough. -/
def shortest (mantissa : Nat) (exponent : Int) : Digits :=
  if mantissa = 0 then zero
  else
    let first := leading (mantissa * Nat.pow 2 exponent.toNat) (Nat.pow 2 (-exponent).toNat)
    let basin := Basin.of mantissa exponent
    ((List.range 17).findSome? fun (n : Nat) => basin.atPlace? (first - n)).getD zero

end Digits

end Formula.Decimal
