/-
What a session can be asked to do, and what it answers.
-/
import Formula.Number
import Formula.Session.Basic

namespace Formula

/-- A link to follow from one object to another. -/
inductive Hop where
  | root
  | head
  | prev
  /-- An entry of the history, counted from its end if negative. -/
  | history (index : Int)
  | operand (side : Side)
  | parent
deriving DecidableEq

/-- How a value is asked for. -/
inductive Manner where
  /-- By stacks, and reported if it is not finite. -/
  | reporting
  /-- As the object itself does it: a node by recursion and quietly. -/
  | own
deriving DecidableEq

/-- A request; `on` is the name of what it is about, and `name` the name
that its result is bound to. -/
inductive Command where
  | newValue (name : String) (number : Number)
  | newOperator (name symbol : String)
  | newForeign (name : String) (kind : Identifier)
  | newEquation (name on : String)
  | newBuilder (name : String)
  | newStream (name text : String)
  | setValue (on : String) (number : Number)
  | attach (on : String) (side : Side) (child : Option String)
  | link (on : String) (side : Side) (child : Option String)
  | setParent (on : String) (parent : Option String)
  | bind (name on : String) (path : List Hop)
  | drop (name : String)
  | describe (on : String)
  | traverse (on : String) (order : Option String)
  | operators (on : String)
  | leaves (on : String)
  | onRightSpine (on : String)
  | validate (on : String)
  | isValid (on : String)
  | evaluate (on : String) (manner : Manner)
  | text (on : String)
  | label (on : String)
  | size (on : String)
  | depth (on : String)
  | algebra (on : String)
  | parse (name text : String) (inspection : Inspection)
  | add (on token : String)
  | build (name on : String)
  | inspect (on : String)
  | next (on : String)
  | configure (level : Level) (destination : Option Destination)
  | setLevel (level : Level)
  | logger
  | tell (message : Message)
  | savedLog

-- ============================================================= answers

/-- A builder as it is shown. -/
structure BuilderView where
  expected : Expected
  finalized : Bool
  head : List Graph.Entry
  prev : Option String
  history : List Operator
  spine : List Bool

/-- An operator node's rank and the labels of its operands. -/
structure OperationView where
  rank : Nat
  left : Option String
  right : Option String

/-- A node as it is shown; an operator node shows its operation too. -/
structure NodeView where
  label : String
  kind : Kind
  parent : Option String
  operation : Option OperationView

/-- A logger and the sinks as they are shown; `toFile` only when the
logger has just been configured. -/
structure LoggerView where
  level : Level
  toFile : Option Bool
  console : Bool
  file : Bool

/-- The answer to a request. -/
inductive Reply where
  | nothing
  | flag (b : Bool)
  | count (n : Nat)
  | number (x : Float)
  | text (s : String)
  | texts (l : List String)
  | operator (o : Operator)
  | outline (entries : List Graph.Entry)
  | builder (view : BuilderView)
  | node (view : NodeView)
  | algebra (form : Algebra)
  | logger (view : LoggerView)

/-- A label, or nothing. -/
def Reply.ofLabel? : Option String → Reply
  | some s => .text s
  | none => .nothing

/-- What comes of a request: an answer or an error, the builder that
refused it if one did, and the records that the console shows. -/
structure Outcome where
  result : Except Error Reply
  builder : Option BuilderView
  records : List Record

end Formula
