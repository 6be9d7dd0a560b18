/-
The value of an expression graph: a fold that applies each operator to
the values of its operands.  `evaluate` is safe for any depth and is what
formulas are evaluated by.  `evaluateRec` is the definition it follows,
and is for formulas no deeper than calls may be nested.
-/
import Formula.Graph.Fold

namespace Formula.Graph

/-- The value below a place. -/
def evaluate (g : Graph) (r : Option Ref) : Except Defect Float :=
  g.fold id Operator.apply r

/-- The value below a place, by recursion; at most `limit` calls may be
nested in each other. -/
def evaluateRec (c : Overhead) (limit : Nat) (g : Graph) (r : Option Ref) :
    Except Defect Float :=
  g.foldRec id Operator.apply c limit r

end Formula.Graph
