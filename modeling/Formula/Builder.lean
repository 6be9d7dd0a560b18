/-
Building a formula token by token.  A builder expects a value and an
operator in turn and grows one tree as it goes.  A value becomes the
right operand of the operator before it.  An operator is spliced in: it
displaces the oldest operator on the right spine that binds at least as
tightly, taking its place and adopting it as left operand; if there is
none it takes the place of the value before it.

A call that is refused changes nothing, so the calls are functions into
`Except`: the graph and the builder that a caller goes on with after an
error are the ones it had.
-/
import Formula.Error
import Formula.Graph.Walk
import Formula.Literal

namespace Formula

/-- What a builder expects next. -/
inductive Expected where
  | value
  | operator
deriving DecidableEq

namespace Expected

/-- Everything that can be expected. -/
def all : List Expected := [.value, .operator]

/-- The word for what is expected. -/
def name : Expected → String
  | .value => "EXPECT_VALUE"
  | .operator => "EXPECT_OPERATOR"

/-- Its place, counted from zero. -/
def code : Expected → Nat
  | .value => 0
  | .operator => 1

end Expected

/-- A formula being built. -/
structure Builder where
  expected : Expected := .value
  /-- Whether the formula has been handed out. -/
  finalized : Bool := false
  /-- The top of the tree. -/
  head : Option Ref := none
  /-- The node that was added last. -/
  prev : Option Ref := none
  /-- Every operator node, oldest first. -/
  history : List Ref := []
  /-- How many tokens have been taken. -/
  position : Nat := 0
deriving DecidableEq

/-- How an operator found its place. -/
inductive Splice where
  /-- It took the place of an operator, which became its left operand. -/
  | displaces (op displaced : Operator)
  /-- It took the place of the value before it. -/
  | extends (op : Operator)
deriving DecidableEq

/-- The wording of a splice. -/
def Splice.message : Splice → String
  | .displaces op displaced => op.symbol ++ " displaces " ++ displaced.symbol
  | .extends op => op.symbol ++ " extends the right branch"

namespace Builder

-- ============================================================== values

/-- Takes a number: the first one is the tree, and every other one the
right operand of the operator before it. -/
def addValue (g : Graph) (b : Builder) (x : Float) : Except Fault (Graph × Builder) := do
  let (g, node) := g.add (.value x)
  match b.head with
  | none => return (g, { b with head := some node, prev := some node })
  | some _ =>
    let g ← g.adopt b.prev .right node
    return (g, { b with prev := some node })

-- =========================================================== operators

/-- The oldest operator node on the right spine that binds at least as
tightly as an operator. -/
def displaced? (g : Graph) (op : Operator) : List Ref → Except Fault (Option Ref)
  | [] => .ok none
  | r :: later => do
    if (g.operator? r).any (op.rank ≤ ·.rank) then
      if ← g.onRightSpine r then .ok (some r) else displaced? g op later
    else displaced? g op later

/-- Puts a new operator node in the place of an operator node, under the
parent of the one that it displaces or at the top of the tree. -/
def displace (g : Graph) (b : Builder) (node old : Ref) : Except Fault (Graph × Builder) :=
  match g.parent? old with
  | none => .ok (g.attach node .left old, { b with head := some node })
  | some p => do
    let g ← g.adopt (some p) .right node
    return (g.attach node .left old, b)

/-- Takes an operator. -/
def addOperator (g : Graph) (b : Builder) (op : Operator) :
    Except Fault (Graph × Builder × Option Splice) := do
  let (g, node) := g.add (.operator (some op) none none)
  let placed := { b with prev := some node, history := b.history ++ [node] }
  let some prev := b.prev | .error (.lacks .nothing "parent")
  if b.head = b.prev then
    -- the first operator: the only value is its left operand
    return (g.attach node .left prev, { placed with head := some node }, none)
  match ← displaced? g op b.history with
  | some old =>
    let (g, placed) ← placed.displace g node old
    return (g, placed, (g.operator? old).map (.displaces op))
  | none =>
    let g ← g.adopt (g.parent? prev) .right node
    return (g.attach node .left prev, placed, some (.extends op))

-- =============================================================== calls

/-- Takes the next token. -/
def add (g : Graph) (b : Builder) (token : String) :
    Except Error (Graph × Builder × Option Splice) :=
  if b.finalized then .error .addAfterBuild
  else
    match b.expected with
    | .value =>
      match Literal.read? token with
      | none => .error (.notNumber token b.position)
      | some x => do
        let (g, b) ← (b.addValue g x).mapError .fault
        return (g, { b with expected := .operator, position := b.position + 1 }, none)
    | .operator =>
      match Operator.ofSymbol? token with
      | none => .error (.notOperator token b.position)
      | some op => do
        let (g, b, splice) ← (b.addOperator g op).mapError .fault
        return (g, { b with expected := .value, position := b.position + 1 }, splice)

/-- Hands out the formula: the builder takes no more tokens, and the top
of its tree is the formula's root. -/
def build (g : Graph) (b : Builder) : Except Error (Builder × Option Ref) :=
  if b.finalized then .error .buildAfterBuild
  else
    match b.expected with
    | .operator => .ok ({ b with finalized := true }, b.head)
    | .value =>
      match b.head with
      | none => .error (.empty b.position)
      | some _ =>
        match b.prev.bind g.operator? with
        | some op => .error (.trailing op.symbol (b.position - 1))
        | none => .error (.fault (.lacks .nothing "symbol"))

end Builder

end Formula
