/-
Builders at work.  `Builder.add` and `Builder.build` say what a call comes
to.  Here the same calls are carried out, write by write, on a graph and a
log that others use as well.  An error ends a call where it arises, and
what had been written by then stays written; the calls look before they
write, but nothing in their form makes them.

A worker works at a desk, with the graph and the log before it.  In a
workshop any number of workers take turns with one graph and one log.
-/
import Formula.Builder
import Formula.Equation

namespace Formula

/-- A builder at work, with the logger that it tells its splices to. -/
structure Worker where
  builder : Builder
  logger : LoggerId

/-- What a worker has before it: the graph and the log, which others use
as well, and what it remembers itself. -/
structure Desk where
  graph : Graph
  log : Log
  worker : Worker

/-- Work at a desk: it writes as it goes, and may end in an error. -/
abbrev Work (α : Type) := ExceptT Error (StateM Desk) α

/-- Does work at a desk.  What was written stays written, also where the
work ends in an error. -/
def Desk.perform {α : Type} (d : Desk) (work : Work α) : Except Error α × Desk :=
  work.run d

namespace Worker

-- ======================================================= single writes

/-- Adds a node to the graph. -/
def make (c : Content) : Work Ref :=
  modifyGet fun d => (d.graph.size, { d with graph := (d.graph.add c).1 })

/-- Makes one node the operand of another. -/
def attach (r : Ref) (side : Side) (child : Ref) : Work Unit :=
  modify fun d => { d with graph := d.graph.attach r side child }

/-- Makes a node the operand of what must be an operator node. -/
def adopt (owner : Option Ref) (side : Side) (child : Ref) : Work Unit := do
  let g ← ((← get).graph.adopt owner side child).mapError Error.fault
  modify ({ · with graph := g })

/-- Changes what the builder remembers. -/
def remember (f : Builder → Builder) : Work Unit :=
  modify fun d => { d with worker := { d.worker with builder := f d.worker.builder } }

/-- Tells the worker's logger how an operator found its place. -/
def tell (splice : Splice) : Work Unit :=
  modify fun d => { d with log := d.log.say d.worker.logger (.debug splice.message) }

/-- What is wanted of something that may not be there. -/
def present {α : Type} (part : String) : Option α → Work α
  | some a => return a
  | none => throw (.fault (.lacks .nothing part))

-- ============================================================= splicing

/-- Puts a value node where a value is expected: at the top of the tree, or
below the operator before it. -/
def place (node : Ref) : Work Unit := do
  let b := (← get).worker.builder
  match b.head with
  | none => remember ({ · with head := some node })
  | some _ => adopt b.prev .right node

/-- Puts a node in the place of another: at the top of the tree, or below
the other's parent. -/
def replace (node old : Ref) : Work Unit := do
  match (← get).graph.parent? old with
  | none => remember ({ · with head := some node })
  | some p => adopt (some p) .right node

/-- Puts an operator node in the place of another, which becomes its left
operand. -/
def displace (op : Operator) (node old : Ref) : Work Unit := do
  replace node old
  attach node .left old
  tell (.displaces op (← present "symbol" ((← get).graph.operator? old)))

/-- Puts an operator node in the place of the value before it. -/
def extend (op : Operator) (node prev : Ref) : Work Unit := do
  adopt ((← get).graph.parent? prev) .right node
  attach node .left prev
  tell (.extends op)

/-- Puts an operator node in its place. -/
def splice (op : Operator) (node : Ref) : Work Unit := do
  let b := (← get).worker.builder
  if b.head = b.prev then
    -- the first operator: the only value is its left operand
    attach node .left (← present "parent" b.head)
    remember ({ · with head := some node })
  else
    match ← (Builder.displaced? (← get).graph op b.history).mapError Error.fault with
    | some old => displace op node old
    | none => extend op node (← present "parent" b.prev)

-- =============================================================== calls

/-- Takes a number. -/
def addValue (x : Float) : Work Unit := do
  let node ← make (.value x)
  place node
  remember ({ · with prev := some node })
  remember ({ · with expected := .operator })

/-- Takes an operator. -/
def addOperator (op : Operator) : Work Unit := do
  let node ← make (.operator (some op) none none)
  splice op node
  remember fun b => { b with history := b.history ++ [node] }
  remember ({ · with prev := some node })
  remember ({ · with expected := .value })

/-- Reads a token as what is expected, and takes it. -/
def take (token : String) : Work Unit := do
  let b := (← get).worker.builder
  match b.expected with
  | .value =>
    match Literal.read? token with
    | none => throw (.notNumber token b.position)
    | some x => addValue x
  | .operator =>
    match Operator.ofSymbol? token with
    | none => throw (.notOperator token b.position)
    | some op => addOperator op

/-- Takes the next token, unless the formula has been handed out. -/
def add (token : String) : Work Unit := do
  if (← get).worker.builder.finalized then throw .addAfterBuild
  else
    take token
    remember fun b => { b with position := b.position + 1 }

/-- Hands out the formula. -/
def build : Work Equation := do
  let b := (← get).worker.builder
  if b.finalized then throw .buildAfterBuild
  else
    match b.expected with
    | .value =>
      match b.head with
      | none => throw (.empty b.position)
      | some _ =>
        let op ← present "symbol" (b.prev.bind (← get).graph.operator?)
        throw (.trailing op.symbol (b.position - 1))
    | .operator =>
      remember ({ · with finalized := true })
      return { root := b.head }

end Worker

-- =========================================================== a workshop

/-- Workers that share a graph and a log. -/
structure Workshop where
  graph : Graph := {}
  log : Log := {}
  workers : Array Worker := #[]

namespace Workshop

/-- Takes on a new worker, which keeps the logger that is current now. -/
def hire (w : Workshop) : Workshop :=
  let (log, logger) := w.log.logger
  { w with log, workers := w.workers.push { builder := {}, logger } }

/-- Lets a worker work, with the graph and the log as they are. -/
def employ {α : Type} (w : Workshop) (id : Nat) (worker : Worker) (work : Work α) :
    Except Error α × Workshop :=
  let (result, desk) := Desk.perform ⟨w.graph, w.log, worker⟩ work
  (result, {
    graph := desk.graph
    log := desk.log
    workers := w.workers.setIfInBounds id desk.worker })

end Workshop

end Formula
