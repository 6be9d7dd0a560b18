/-
Folding an expression graph from its leaves up: a leaf becomes a result
by `leaf`, and an operator joins the results of its left and its right
operand by `join`.  Evaluation, rendering and the algebraic form are all
folds, and they share what can be wrong with a graph.

There are two ways to do it.  `foldRec` follows the definition: left
operand, right operand, operator.  The call for an operand is nested in
that for its operator, and only so many calls may be nested in each other;
where a formula is too deep for that, this way gives up.  `fold` keeps the
operands that still wait on a stack of its own and the results on another,
so that it can do formulas of any depth.  It carries an allowance of links
against cycles, as the walks do; a recursion on a cycle nests calls until
it gives up.
-/
import Formula.Graph.Basic

namespace Formula

/-- What stops a fold. -/
inductive Defect where
  /-- An operand is missing. -/
  | missing
  /-- A node is neither a value nor an operator node. -/
  | foreign (kind : Identifier)
  /-- An operator node has no operator. -/
  | bare
  /-- The links form a cycle. -/
  | endless
  /-- More calls would be nested in each other than may be. -/
  | tooDeep
  /-- The stack of results holds fewer than are wanted. -/
  | underflow
deriving DecidableEq

/-- A defect as a fault: `visit` is the part that a fold asks of what it
comes upon, and `join` the part that it asks of an operator. -/
def Defect.fault (visit join : String) : Defect → Fault
  | .missing => .lacks .nothing visit
  | .foreign kind => .lacks (.foreign kind) visit
  | .bare => .lacks .nothing join
  | .endless | .underflow => .endless
  | .tooDeep => .tooDeep

/-- The calls that a fold by recursion makes besides its own, nested in
them: those that reading a number takes at the bottom of a formula, and
those that applying an operator takes. -/
structure Overhead where
  reading : Nat
  applying : Nat

namespace Graph

variable {α : Type} (leaf : Float → α) (join : Operator → α → α → α)

-- ====================================================== by definition

/-- The fold by recursion, where `n` more calls may be nested. -/
def foldRec (c : Overhead) (g : Graph) : Nat → Option Ref → Except Defect α
  | n, r =>
    match r.bind g.content? with
    | none => .error .missing
    | some (.value x) => if c.reading ≤ n then .ok (leaf x) else .error .tooDeep
    | some (.foreign kind) => .error (.foreign kind)
    | some (.operator op left right) =>
      match n with
      | 0 => .error .tooDeep
      | n + 1 => do
        let x ← g.foldRec c n left
        let y ← g.foldRec c n right
        match op with
        | none => .error .bare
        | some o => if c.applying ≤ n then .ok (join o x y) else .error .tooDeep

-- ========================================================= by a stack

/-- What the stack holds: a place to fold, or an operator whose two
operands have been folded. -/
inductive Task where
  | visit (allowance : Nat) (r : Option Ref)
  | combine (op : Option Operator)

/-- What a task may cost: a visit is dearer than the three tasks that
may follow from it. -/
def Task.cost : Task → Nat
  | .visit n _ => Nat.pow 4 n
  | .combine _ => 1

/-- What a stack of tasks may cost. -/
def stackCost : List Task → Nat
  | [] => 0
  | task :: tasks => task.cost + stackCost tasks

/-- Works off the stack of tasks; the results stay on the other stack,
the latest first. -/
def drain (g : Graph) : List Task → List α → Except Defect (List α)
  | [], results => .ok results
  | .combine op :: tasks, results =>
    match results with
    | y :: x :: rest =>
      match op with
      | none => .error .bare
      | some o => g.drain tasks (join o x y :: rest)
    | _ => .error .underflow
  | .visit n r :: tasks, results =>
    match r.bind g.content? with
    | none => .error .missing
    | some (.value x) => g.drain tasks (leaf x :: results)
    | some (.foreign kind) => .error (.foreign kind)
    | some (.operator op left right) =>
      match n with
      | 0 => .error .endless
      | n + 1 => g.drain (.visit n left :: .visit n right :: .combine op :: tasks) results
termination_by tasks => stackCost tasks
decreasing_by
  · simp only [stackCost, Task.cost]
    omega
  · have hpos : 0 < Nat.pow 4 n := Nat.pow_pos (by omega)
    simp only [stackCost, Task.cost]
    omega
  · have hpos : 0 < Nat.pow 4 n := Nat.pow_pos (by omega)
    have hdear : Nat.pow 4 (n + 1) = Nat.pow 4 n * 4 := rfl
    simp only [stackCost, Task.cost, hdear]
    omega

/-- The fold by stacks. -/
def fold (g : Graph) (r : Option Ref) : Except Defect α := do
  match ← g.drain leaf join [.visit g.size r] [] with
  | x :: _ => .ok x
  | [] => .error .underflow

end Graph

end Formula
