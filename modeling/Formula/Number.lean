/-
Numbers as they are handed in: a binary64 number, or a whole number of
any size, which has to be rounded to one.  Rounding goes to the nearest
binary64 number, a tie to the even neighbour; a whole number whose
rounding is out of range has no binary64 form.
-/
import Formula.Error
import Formula.Operator

namespace Formula

/-- A number before it is put into a formula. -/
inductive Number where
  | real (x : Float)
  | whole (n : Int)

namespace Number

/-- The binary64 number that stands for it, unless it is too large. -/
def toFloat : Number → Except Error Float
  | .real x => .ok x
  | .whole n =>
    let x := Float.ofInt n
    if x.isInf then .error .tooLarge else .ok x

/-- What the operator of a symbol computes; the symbol is looked up
before the numbers are rounded, the left one first. -/
def applySymbol (symbol : String) (x y : Number) : Except Error Float :=
  match Operator.ofSymbol? symbol with
  | none => .error (.fault (.lacks .nothing "apply"))
  | some o => return o.apply (← x.toFloat) (← y.toFloat)

/-- What the operator at a place in the table computes. -/
def applyCode (code : Int) (x y : Number) : Except Error Float :=
  return Operator.applyCode code (← x.toFloat) (← y.toFloat)

end Number

end Formula
