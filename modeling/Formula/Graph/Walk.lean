/-
Walking a graph: down along the operands in either order, level by level,
and up along the parents.

A graph may have cycles, and a walk has to end.  A path that visits more
nodes than the graph has visits one twice, so each walk carries an
allowance, the number of links it may still follow, which starts at the
number of nodes: where the graph has no cycle the allowance is never used
up, and where it has one the walk stops there.
-/
import Formula.Graph.Basic

namespace Formula.Graph

-- ======================================================= walking down

/-- A place to visit, and how many links may be followed below it. -/
structure Visit where
  allowance : Nat
  ref : Ref

/-- What a list of visits may still cost: a visit is dearer than the two
that may follow from it. -/
def Visit.cost : List Visit → Nat
  | [] => 0
  | v :: visits => Nat.pow 3 v.allowance + Visit.cost visits

/-- The visits that follow from one, left before right. -/
def below (g : Graph) : Visit → List Visit
  | ⟨0, _⟩ => []
  | ⟨n + 1, r⟩ => (g.operands r).map (⟨n, ·⟩)

theorem length_operands_le (g : Graph) (r : Ref) : (g.operands r).length ≤ 2 := by
  unfold operands
  split
  · next c _ =>
    simp only [Content.operands, List.length_append]
    cases c.operand .left <;> cases c.operand .right <;> simp
  · simp

theorem Visit.cost_cons (v : Visit) (visits : List Visit) :
    Visit.cost (v :: visits) = Nat.pow 3 v.allowance + Visit.cost visits := rfl

theorem Visit.cost_append (a b : List Visit) :
    Visit.cost (a ++ b) = Visit.cost a + Visit.cost b := by
  induction a with
  | nil => exact (Nat.zero_add _).symm
  | cons v a ih =>
      rw [List.cons_append, Visit.cost_cons, Visit.cost_cons, ih, Nat.add_assoc]

theorem Visit.cost_level (n : Nat) (level : List Ref) :
    Visit.cost (level.map (⟨n, ·⟩)) = level.length * Nat.pow 3 n := by
  induction level with
  | nil => exact (Nat.zero_mul _).symm
  | cons r level ih =>
      rw [List.map_cons, Visit.cost_cons, ih, List.length_cons, Nat.succ_mul,
        Nat.add_comm]

theorem cost_below_lt (g : Graph) (v : Visit) :
    Visit.cost (g.below v) < Nat.pow 3 v.allowance := by
  obtain ⟨_ | n, r⟩ := v
  · exact Nat.one_pos
  · have hlen := g.length_operands_le r
    have hpos : 0 < Nat.pow 3 n := Nat.pow_pos (by omega)
    have hdear : Nat.pow 3 (n + 1) = Nat.pow 3 n * 3 := rfl
    rw [below, Visit.cost_level, hdear]
    calc (g.operands r).length * Nat.pow 3 n
        ≤ 2 * Nat.pow 3 n := Nat.mul_le_mul_right _ hlen
      _ < Nat.pow 3 n * 3 := by omega

/-- Depth first: what follows from a visit comes before what waited. -/
def depthFirst (g : Graph) : List Visit → List Ref
  | [] => []
  | v :: stack => v.ref :: g.depthFirst (g.below v ++ stack)
termination_by visits => Visit.cost visits
decreasing_by
  have := g.cost_below_lt v
  simp only [Visit.cost_append, Visit.cost_cons]
  omega

/-- Breadth first: what follows from a visit comes after what waited. -/
def breadthFirst (g : Graph) : List Visit → List Ref
  | [] => []
  | v :: queue => v.ref :: g.breadthFirst (queue ++ g.below v)
termination_by visits => Visit.cost visits
decreasing_by
  have := g.cost_below_lt v
  simp only [Visit.cost_append, Visit.cost_cons]
  omega

/-- The two orders of traversal. -/
inductive Order where
  | breadthFirst
  | depthFirst
deriving DecidableEq

/-- Every node below a place, itself included, once for each path that
leads to it. -/
def nodesBelow (g : Graph) (order : Order) (r : Ref) : List Ref :=
  match order with
  | .breadthFirst => g.breadthFirst [⟨g.size, r⟩]
  | .depthFirst => g.depthFirst [⟨g.size, r⟩]

/-- The operator nodes below a place, depth first. -/
def operatorsBelow (g : Graph) (r : Ref) : List Ref :=
  (g.nodesBelow .depthFirst r).filter fun n => g.holder (some n) = .operator

/-- The value nodes below a place, depth first, which is the order in
which their numbers are written. -/
def valuesBelow (g : Graph) (r : Ref) : List Ref :=
  (g.nodesBelow .depthFirst r).filter fun n => g.holder (some n) = .value

/-- How many nodes there are below a place, itself included. -/
def countBelow (g : Graph) (r : Ref) : Nat :=
  (g.nodesBelow .depthFirst r).length

-- ===================================================== level by level

/-- The levels from one on down, as many as the allowance lets through;
each is all operands of the one above it. -/
def levels (g : Graph) : Nat → List Ref → List (List Ref)
  | _, [] => []
  | 0, _ => []
  | n + 1, level => level :: g.levels n (level.flatMap g.operands)

/-- The number of levels below a place, its own included. -/
def depthBelow (g : Graph) (r : Ref) : Nat :=
  (g.levels g.size [r]).length

-- ========================================================= walking up

/-- Climbs from parent to parent as long as each has the one before as
its right operand. -/
def climb (g : Graph) : Nat → Ref → Except Fault Bool
  | 0, _ => .error .endless
  | n + 1, r =>
    match g.parent? r with
    | none => .ok true
    | some p =>
      match g.content? p with
      | some (.operator _ _ right) =>
        if right = some r then g.climb n p else .ok false
      | _ => .error (.lacks (g.holder (some p)) "right")

/-- Whether a node is reached from the top by right operands alone, as
the parents tell it. -/
def onRightSpine (g : Graph) (r : Ref) : Except Fault Bool :=
  g.climb g.size r

end Formula.Graph
