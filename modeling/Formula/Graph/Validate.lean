/-
Validation: what keeps the graph below a node from being a complete tree
whose parent links all lead back up.  Each node is looked at once, with a
stack of places still to be looked at and a list of those that have been;
that list is what ends the search, whatever the links are.

A violation names the nodes it is about.  Its wording names them by their
labels, and a node without a label makes the wording fail.
-/
import Formula.Graph.Render

namespace Formula

/-- A way in which a graph is not a complete tree. -/
inductive Violation where
  | noRoot
  | rootHasParent (root : Ref)
  | repeated (node : Ref)
  | foreign (node : Ref)
  | missing (node : Ref) (side : Side)
  | stray (node : Ref) (side : Side) (child : Ref)
deriving DecidableEq

namespace Graph

/-- How many nodes are not yet in a list. -/
def unseen (g : Graph) (seen : List Ref) : Nat :=
  ((List.range g.size).filter (· ∉ seen)).length

/-- Looking at one more node leaves fewer. -/
theorem unseen_cons_lt {g : Graph} {seen : List Ref} {r : Ref} {c : Content}
    (hnew : r ∉ seen) (hc : g.content? r = some c) :
    g.unseen (r :: seen) < g.unseen seen := by
  have hr : r < g.size := by
    simp only [content?, node?, Option.map_eq_some_iff] at hc
    obtain ⟨n, hn, _⟩ := hc
    exact (Array.getElem?_eq_some_iff.1 hn).1
  unfold unseen
  have hsplit : (List.range g.size).filter (· ∉ r :: seen)
      = ((List.range g.size).filter (· ∉ seen)).filter (· ≠ r) := by
    rw [List.filter_filter]
    congr 1
    funext i
    simp
  rw [hsplit]
  refine Nat.lt_of_le_of_ne (List.length_filter_le _ _) fun heq => ?_
  have hmem : r ∈ (List.range g.size).filter (· ∉ seen) := by
    simp [hr, hnew]
  have := List.length_filter_eq_length_iff.1 heq r hmem
  simp at this

/-- What is wrong with one operand of a node. -/
def operandViolations (g : Graph) (r : Ref) (side : Side) (child : Option Ref) :
    List Violation :=
  match child with
  | none => [.missing r side]
  | some c => if g.parent? c = some r then [] else [.stray r side c]

/-- Looks at every node that the stack leads to; the right operand is
looked at before the left. -/
def violationsFrom (g : Graph) (seen : List Ref) : List Ref → List Violation
  | [] => []
  | r :: stack =>
    if _ : r ∈ seen then .repeated r :: g.violationsFrom seen stack
    else
      match _ : g.content? r with
      | none => g.violationsFrom seen stack
      | some (.value _) => g.violationsFrom (r :: seen) stack
      | some (.foreign _) => .foreign r :: g.violationsFrom (r :: seen) stack
      | some (.operator _ left right) =>
        g.operandViolations r .left left ++ g.operandViolations r .right right
          ++ g.violationsFrom (r :: seen) (right.toList ++ left.toList ++ stack)
termination_by stack => (g.unseen seen, stack.length)
decreasing_by
  · exact Prod.Lex.right _ (by simp)
  · exact Prod.Lex.right _ (by simp)
  · exact Prod.Lex.left _ _ (unseen_cons_lt ‹_› ‹_›)
  · exact Prod.Lex.left _ _ (unseen_cons_lt ‹_› ‹_›)
  · exact Prod.Lex.left _ _ (unseen_cons_lt ‹_› ‹_›)

/-- All that is wrong with the graph below a place. -/
def violations (g : Graph) (root : Option Ref) : List Violation :=
  match root with
  | none => [.noRoot]
  | some r =>
    (if (g.parent? r).isSome then [.rootHasParent r] else [])
      ++ g.violationsFrom [] [r]

-- ============================================================= wording

/-- The wording of a violation. -/
def describe (g : Graph) : Violation → Except Fault String
  | .noRoot => .ok "tree has no root"
  | .rootHasParent r => return "root " ++ (← g.label (some r)) ++ " has a parent"
  | .repeated r => return (← g.label (some r)) ++ " is reachable more than once"
  | .foreign r => .ok ("unexpected node type " ++ (g.holder (some r)).name)
  | .missing r side =>
    return (← g.label (some r)) ++ " is missing its " ++ side.name ++ " operand"
  | .stray r side child =>
    return side.name ++ " child " ++ (← g.label (some child)) ++ " of "
      ++ (← g.label (some r)) ++ " does not point back to it"

/-- All that is wrong with the graph below a place, in words. -/
def validate (g : Graph) (root : Option Ref) : Except Fault (List String) :=
  (g.violations root).mapM g.describe

/-- Whether nothing is wrong with the graph below a place. -/
def isValid (g : Graph) (root : Option Ref) : Except Fault Bool :=
  (·.isEmpty) <$> g.validate root

end Graph

end Formula
