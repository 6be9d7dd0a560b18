/-
The algebraic form of a formula.  It has sums, products and powers but
neither differences nor quotients: `a - b` is `a + (-1) * b`, and `a / b`
is `a * b ^ (-1)`.  Nothing is simplified, so the form keeps the shape of
the formula.  Its numbers know no negative zero and only one undefined
value.  It is made by recursion, for formulas no deeper than calls may be
nested.
-/
import Formula.Binary64
import Formula.Graph.Fold

namespace Formula

/-- An algebraic form. -/
inductive Algebra where
  | number (x : Float)
  | infinity
  | negativeInfinity
  | undefined
  | integer (n : Int)
  | sum (a b : Algebra)
  | product (a b : Algebra)
  | power (a b : Algebra)

namespace Algebra

/-- The form of a number. -/
def ofFloat (x : Float) : Algebra :=
  match Binary64.ofFloat x with
  | .nan => .undefined
  | .infinite negative => if negative then .negativeInfinity else .infinity
  | .finite _ mantissa _ => if mantissa = 0 then .number 0 else .number x

/-- The form of an operation on two forms. -/
def ofOperator : Operator → Algebra → Algebra → Algebra
  | .add, a, b => .sum a b
  | .sub, a, b => .sum a (.product (.integer (-1)) b)
  | .mul, a, b => .product a b
  | .div, a, b => .product a (.power b (.integer (-1)))

end Algebra

/-- The algebraic form of the formula below a place; at most `limit` calls
may be nested in each other. -/
def Graph.algebra (c : Overhead) (limit : Nat) (g : Graph) (r : Option Ref) :
    Except Defect Algebra :=
  g.foldRec Algebra.ofFloat Algebra.ofOperator c limit r

end Formula
