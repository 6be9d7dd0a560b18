/-
Letting go of nodes.  Operand links own what they point to, so the nodes
that stay are those that operand links lead to from the places that are
still held.  A parent link to a node that does not stay leads nowhere.
-/
import Formula.Graph.Validate

namespace Formula.Graph

/-- The nodes that operand links lead to from a stack of places, joined
to those already found. -/
def reach (g : Graph) (found : List Ref) : List Ref → List Ref
  | [] => found
  | r :: stack =>
    if _ : r ∈ found then g.reach found stack
    else
      match _ : g.content? r with
      | none => g.reach found stack
      | some c => g.reach (r :: found) (c.operands ++ stack)
termination_by stack => (g.unseen found, stack.length)
decreasing_by
  · exact Prod.Lex.right _ (by simp)
  · exact Prod.Lex.right _ (by simp)
  · exact Prod.Lex.left _ _ (unseen_cons_lt ‹_› ‹_›)

/-- The graph once only the given places are held: parents that did not
stay are forgotten. -/
def release (g : Graph) (held : List Ref) : Graph :=
  let kept := g.reach [] held
  { nodes := g.nodes.map fun n => { n with parent := n.parent.filter (· ∈ kept) } }

end Formula.Graph
