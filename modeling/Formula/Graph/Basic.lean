/-
Expression graphs.  Nodes live in one array and name each other by their
place in it.  A value node holds a number; an operator node holds its two
operands, either of which may still be missing, and its operator, which
is missing too when it was made from an unknown symbol; a foreign node
is of a kind that formulas are not made of, holds nothing but the name of
that kind, and is there to be found out by validation.

Two kinds of link are kept apart.  An operand link owns what it points
to.  A parent link does not: it is for finding the way back up, and
nothing keeps it in step with the operand links but the operations that
set both (`attach`).  `link` and `setParent` set one without the other,
so a graph need not be a tree.
-/
import Formula.Operator
import Formula.Fault

namespace Formula

/-- A node's place in its graph. -/
abbrev Ref := Nat

/-- The two operands of an operator node. -/
inductive Side where
  | left
  | right
deriving DecidableEq

/-- The side as messages name it. -/
def Side.name : Side → String
  | .left => "left"
  | .right => "right"

/-- The kinds of node that formulas are made of. -/
inductive Kind where
  | value
  | operator
deriving DecidableEq

namespace Kind

/-- Every kind. -/
def all : List Kind := [.value, .operator]

/-- The word for the kind. -/
def name : Kind → String
  | .value => "VALUE"
  | .operator => "OPERATOR"

/-- The place among the kinds, counted from zero. -/
def code : Kind → Nat
  | .value => 0
  | .operator => 1

end Kind

/-- What a node holds. -/
inductive Content where
  | value (x : Float)
  | operator (op : Option Operator) (left right : Option Ref)
  | foreign (kind : Identifier)

namespace Content

/-- The kind of node. -/
def holder : Content → Holder
  | .value _ => .value
  | .operator .. => .operator
  | .foreign kind => .foreign kind

/-- The operand on a side. -/
def operand : Content → Side → Option Ref
  | .operator _ left _, .left => left
  | .operator _ _ right, .right => right
  | _, _ => none

/-- The operands that are there, left before right. -/
def operands (c : Content) : List Ref :=
  (c.operand .left).toList ++ (c.operand .right).toList

/-- The same content with another operand on a side; only an operator
node has any. -/
def withOperand (side : Side) (child : Option Ref) : Content → Content
  | .operator op left right =>
    match side with
    | .left => .operator op child right
    | .right => .operator op left child
  | c => c

end Content

/-- A node: what it holds, and the way back up. -/
structure Node where
  content : Content
  parent : Option Ref := none

/-- A graph of nodes. -/
structure Graph where
  nodes : Array Node := #[]

namespace Graph

/-- The graph without nodes. -/
def empty : Graph := {}

/-- How many nodes the graph has. -/
@[inline] def size (g : Graph) : Nat := g.nodes.size

/-- The node at a place. -/
@[inline] def node? (g : Graph) (r : Ref) : Option Node := g.nodes[r]?

/-- What the node at a place holds. -/
@[inline] def content? (g : Graph) (r : Ref) : Option Content := (g.node? r).map (·.content)

/-- Where the node at a place says that its parent is. -/
@[inline] def parent? (g : Graph) (r : Ref) : Option Ref := (g.node? r).bind (·.parent)

/-- The number of the value node at a place. -/
@[inline] def value? (g : Graph) (r : Ref) : Option Float :=
  match g.content? r with
  | some (.value x) => some x
  | _ => none

/-- The operator of the node at a place. -/
@[inline] def operator? (g : Graph) (r : Ref) : Option Operator :=
  match g.content? r with
  | some (.operator op _ _) => op
  | _ => none

/-- The operand on one side of the node at a place. -/
@[inline] def operand? (g : Graph) (r : Ref) (side : Side) : Option Ref :=
  (g.content? r).bind (·.operand side)

/-- The operands of the node at a place, left before right; a missing
one is passed over. -/
def operands (g : Graph) (r : Ref) : List Ref :=
  match g.content? r with
  | some c => c.operands
  | none => []

/-- What stands at a place that may be empty. -/
def holder (g : Graph) (r : Option Ref) : Holder :=
  match r.bind g.content? with
  | some c => c.holder
  | none => .nothing

-- ========================================================= operations

/-- Adds a node that has no parent, and says where it is. -/
def add (g : Graph) (c : Content) : Graph × Ref :=
  ({ nodes := g.nodes.push { content := c } }, g.nodes.size)

/-- Changes the node at a place. -/
def update (g : Graph) (r : Ref) (f : Node → Node) : Graph :=
  { nodes := g.nodes.modify r f }

/-- Puts another number into a value node. -/
def setValue (g : Graph) (r : Ref) (x : Float) : Graph :=
  g.update r fun n => { n with content := .value x }

/-- Sets the way back up, and nothing else. -/
def setParent (g : Graph) (r : Ref) (parent : Option Ref) : Graph :=
  g.update r fun n => { n with parent := parent }

/-- Sets an operand, and nothing else. -/
def link (g : Graph) (r : Ref) (side : Side) (child : Option Ref) : Graph :=
  g.update r fun n => { n with content := n.content.withOperand side child }

/-- Makes one node the operand of another, and the other its parent. -/
def attach (g : Graph) (r : Ref) (side : Side) (child : Ref) : Graph :=
  (g.link r side (some child)).setParent child (some r)

/-- Attaches an operand to what must be an operator node. -/
def adopt (g : Graph) (owner : Option Ref) (side : Side) (child : Ref) :
    Except Fault Graph :=
  match owner, g.holder owner with
  | some r, .operator => .ok (g.attach r side child)
  | _, holder => .error (.lacks holder ("set_" ++ side.name))

end Graph

end Formula
