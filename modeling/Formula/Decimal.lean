/-
The two ways in which formulas show a number.  The brief one keeps six
significant digits and is what a rendered formula shows; the faithful one
keeps as many as it takes to read the same number back, and is what a
node's description shows.
-/
import Formula.Decimal.Layout

namespace Formula.Decimal

/-- Brief numbers have no point when they are whole, and are positional
below a million. -/
def briefLayout : Layout := ⟨6, false⟩

/-- Faithful numbers always show a point or a power of ten, and are
positional below ten to the sixteenth. -/
def faithfulLayout : Layout := ⟨16, true⟩

/-- A number by a layout and a choice of its digits. -/
def text (l : Layout) (digits : Nat → Int → Digits) (x : Float) : List Char :=
  match Binary64.ofFloat x with
  | .nan => ['n', 'a', 'n']
  | .infinite negative => sign negative ++ ['i', 'n', 'f']
  | .finite negative mantissa exponent =>
    sign negative ++ l.write (digits mantissa exponent)
where
  /-- The sign; a positive number has none. -/
  sign (negative : Bool) : List Char := if negative then ['-'] else []

/-- A number to six significant digits. -/
def brief (x : Float) : String :=
  String.ofList <| text briefLayout
    (fun m e => Digits.significant 6 (m * Nat.pow 2 e.toNat) (Nat.pow 2 (-e).toNat)) x

/-- A number by the fewest digits that read back as it. -/
def faithful (x : Float) : String :=
  String.ofList <| text faithfulLayout Digits.shortest x

end Formula.Decimal
