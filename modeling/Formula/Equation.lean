/-
Finished formulas.  An equation is the root of a tree in a graph, with
the text that it was first shown as: once it has been shown it keeps that
text, though the tree may be changed behind its back.  Its value, its
size and its depth are always read from the tree.
-/
import Formula.Graph.Algebra
import Formula.Graph.Evaluate
import Formula.Graph.Render
import Formula.Graph.Validate
import Formula.Graph.Walk
import Formula.Error
import Formula.Log

namespace Formula

namespace Graph

/-- The value below a place; one that is not finite is reported to the
log. -/
def evaluateReporting (g : Graph) (log : Log) (r : Option Ref) : Log × Except Error Float :=
  match g.evaluate r with
  | .error d => (log, .error (.fault (d.fault "right" "apply")))
  | .ok x =>
    if x.isFinite then (log, .ok x)
    else
      let text := "Evaluation produced non-finite result " ++ Decimal.faithful x
      (log.tell (.info text .detailed), .ok x)

/-- The value below a place, by recursion and without a report. -/
def evaluateQuietly (c : Overhead) (limit : Nat) (g : Graph) (r : Option Ref) :
    Except Error Float :=
  (g.evaluateRec c limit r).mapError fun d => .fault (d.fault "evaluate" "apply")

/-- The formula below a place in infix form; nothing has none. -/
def text (g : Graph) (r : Option Ref) : Except Error String :=
  match r with
  | none => .error (.fault (.lacks .nothing "to_string"))
  | some r => (g.render (some r)).mapError fun d => .fault (d.fault "right" "symbol")

/-- The algebraic form of what is below a place. -/
def algebraicForm (c : Overhead) (limit : Nat) (g : Graph) (r : Option Ref) :
    Except Error Algebra :=
  (g.algebra c limit r).mapError fun
    | .bare => .noAlgebra
    | d => .fault (d.fault "to_sympy" "to_sympy")

/-- How many nodes there are below a place; nothing has no size. -/
def sizeBelow (g : Graph) (r : Option Ref) : Except Error Nat :=
  match r with
  | none => .error (.fault (.lacks .nothing "size"))
  | some r => .ok (g.countBelow r)

/-- How many levels there are below a place; nothing is a level too. -/
def height (g : Graph) : Option Ref → Nat
  | none => 1
  | some r => g.depthBelow r

/-- The labels below a place in an order of traversal; nothing is listed
as such. -/
def listing (g : Graph) (order : Order) (r : Option Ref) : Except Fault (List String) :=
  match r with
  | none => return [← g.label none]
  | some r => (g.nodesBelow order r).mapM fun n => g.label (some n)

end Graph

/-- A finished formula. -/
structure Equation where
  root : Option Ref
  /-- The text that it was first shown as. -/
  shown : Option String := none

namespace Equation

/-- The formula in infix form, and the equation that remembers it. -/
def text (g : Graph) (e : Equation) : Except Error (Equation × String) :=
  match e.shown with
  | some text => .ok (e, text)
  | none => do
    let text ← g.text e.root
    return ({ e with shown := some text }, text)

/-- The equation's label. -/
def label (text : String) : String := "Equation(" ++ Text.quoted text ++ ")"

/-- What is told of a formula that has just been read. -/
structure Summary where
  value : Float
  text : String
  size : Nat
  depth : Nat
  valid : Bool

/-- The nodes of a formula, listed. -/
structure Contents where
  depthFirst : List String
  breadthFirst : List String
  leaves : List Float
  operators : List Operator

/-- Sums a formula up. -/
def summary (g : Graph) (log : Log) (root : Option Ref) : Log × Except Error Summary :=
  let (log, value) := g.evaluateReporting log root
  (log, do
    return {
      value := ← value
      text := ← g.text root
      size := ← g.sizeBelow root
      depth := g.height root
      valid := ← (g.isValid root).mapError .fault })

/-- Lists the nodes of a formula. -/
def contents (g : Graph) (root : Option Ref) : Except Error Contents := do
  return {
    depthFirst := ← (g.listing .depthFirst root).mapError .fault
    breadthFirst := ← (g.listing .breadthFirst root).mapError .fault
    leaves := (root.toList.flatMap g.valuesBelow).filterMap g.value?
    operators := (root.toList.flatMap g.operatorsBelow).filterMap g.operator? }

end Equation

end Formula
