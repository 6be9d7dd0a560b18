/-
Decimal literals: digits with at most one decimal point among, before or
after them, and no sign.  A literal of any length reads as the nearest
binary64 number, which is infinite when the literal is out of range.
-/
import Formula.Token

namespace Formula.Literal

/-- Whether a text is a literal: numerals only, one digit at least and
one point at most. -/
def isLiteral (text : List Char) : Bool :=
  text.all Token.isNumeral && text.any Char.isDigit && text.count '.' ≤ 1

/-- The number that a row of digits writes; other characters are passed
over. -/
def digitsValue (text : List Char) : Nat :=
  text.foldl (fun n c => if c.isDigit then 10 * n + (c.toNat - '0'.toNat) else n) 0

/-- How many characters follow the point. -/
def places (text : List Char) : Nat :=
  (text.dropWhile (· != '.')).tail.length

/-- The binary64 number nearest to what a literal writes. -/
def value (text : List Char) : Float :=
  Float.ofScientific (digitsValue text) true (places text)

/-- Reads a literal. -/
def read? (token : String) : Option Float :=
  if isLiteral token.toList then some (value token.toList) else none

end Formula.Literal
