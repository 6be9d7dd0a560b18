/-
What can go wrong when a graph that nobody checked is read or re-linked:
something is asked for a part that it does not have, and the message
names the kind of thing that was asked and the part that was wanted; or
the links lead on for too long.
-/
namespace Formula

/-- The name of a kind of node; there are no blanks in it. -/
structure Identifier where
  text : String
  blankless : ' ' ∉ text.toList
deriving DecidableEq

/-- What stands at a place in a graph. -/
inductive Holder where
  | nothing
  | value
  | operator
  /-- A node of a kind that formulas are not made of. -/
  | foreign (kind : Identifier)
deriving DecidableEq

/-- The kind as messages name it. -/
def Holder.name : Holder → String
  | .nothing => "NoneType"
  | .value => "ValueNode"
  | .operator => "OperatorNode"
  | .foreign kind => kind.text

/-- Why a graph could not be read or re-linked. -/
inductive Fault where
  /-- The holder has no such part. -/
  | lacks (holder : Holder) (part : String)
  /-- The links lead back to where they started. -/
  | endless
  /-- More calls would be nested in each other than may be. -/
  | tooDeep
deriving DecidableEq

/-- The wording of a fault. -/
def Fault.message : Fault → String
  | .lacks holder part =>
    "'" ++ holder.name ++ "' object has no attribute '" ++ part ++ "'"
  | .endless => "the links of the graph form a cycle"
  | .tooDeep => "maximum recursion depth exceeded"

end Formula
