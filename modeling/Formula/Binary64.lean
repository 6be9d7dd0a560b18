/-
A binary64 number taken apart into the exact numbers that its bits
stand for.  Everything the decimal writers do, they do on these parts in
whole-number arithmetic, so nothing is rounded twice; and what tells one
special number from another is read off here too.
-/
namespace Formula

/-- What the bits of a binary64 number stand for: a finite one is
`mantissa * 2 ^ exponent`, up to its sign. -/
inductive Binary64 where
  | nan
  | infinite (negative : Bool)
  | finite (negative : Bool) (mantissa : Nat) (exponent : Int)

namespace Binary64

/-- The exponent of the least binary64 number above zero. -/
def leastExponent : Int := -1074

/-- Takes a number apart: one bit of sign, eleven of exponent and
fifty-two of fraction. -/
def ofFloat (x : Float) : Binary64 :=
  let bits := x.toBits.toNat
  let negative := bits / Nat.pow 2 63 == 1
  let field : Nat := bits / Nat.pow 2 52 % Nat.pow 2 11
  let fraction := bits % Nat.pow 2 52
  if field = 2047 then
    if fraction = 0 then .infinite negative else .nan
  else if field = 0 then
    .finite negative fraction leastExponent
  else
    .finite negative (Nat.pow 2 52 + fraction) (leastExponent + field - 1)

end Binary64

end Formula
