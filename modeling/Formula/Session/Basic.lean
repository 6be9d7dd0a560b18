/-
A session: a workshop, and a table of names.  A name stands for a place in
the graph, which may be empty, for an equation, for a builder or for a
stream of tokens.  Equations, builders and streams change when they are
used, so a name refers to them by number and two names may share one.

The names are what holds nodes: `settle` releases what they do not hold.
-/
import Formula.Graph.Release
import Formula.Parse
import Formula.Worker

namespace Formula

/-- What a name stands for. -/
inductive Object where
  | place (r : Option Ref)
  | equation (id : Nat)
  | builder (id : Nat)
  | stream (id : Nat)
deriving DecidableEq

/-- The nodes that a builder holds. -/
def Builder.held (b : Builder) : List Ref :=
  b.head.toList ++ b.prev.toList ++ b.history

/-- An entry of a builder's history, counted from its end if negative. -/
def Builder.entry? (b : Builder) (index : Int) : Option Ref :=
  if index < 0 then b.history.reverse[index.natAbs - 1]? else b.history[index.toNat]?

/-- The state of a session. -/
structure Session extends Workshop where
  names : List (String × Object) := []
  equations : Array Equation := #[]
  streams : Array (List String) := #[]

namespace Session

-- =============================================================== calls

/-- How many calls may be nested in each other. -/
def callLimit : Nat := 1000

/-- The calls to read a number and to apply an operator.  They count only
for formulas that come within a few calls of the limit. -/
def overhead : Overhead := { reading := 1, applying := 3 }

-- =============================================================== names

/-- What a name stands for. -/
def object? (s : Session) (name : String) : Option Object := s.names.lookup name

/-- Lets a name stand for something; what it stood for is forgotten. -/
def assign (s : Session) (name : String) (object : Object) : Session :=
  { s with names := (name, object) :: s.names.filter (·.1 != name) }

/-- Forgets a name. -/
def drop (s : Session) (name : String) : Session :=
  { s with names := s.names.filter (·.1 != name) }

/-- The names, sorted. -/
def sortedNames (s : Session) : List String :=
  (s.names.map (·.1)).mergeSort

/-- The root of an equation. -/
def rootOf (s : Session) (id : Nat) : Option Ref :=
  s.equations[id]?.bind (·.root)

/-- The place that a name stands for; that of an equation is its root. -/
def place (s : Session) (name : String) : Option Ref :=
  match s.object? name with
  | some (.place r) => r
  | some (.equation id) => s.rootOf id
  | _ => none

/-- The place that a name stands for, where none may be given. -/
def place? (s : Session) (name : Option String) : Option Ref :=
  name.bind s.place

-- ============================================================ lifetime

/-- The nodes that an object holds. -/
def heldBy (s : Session) : Object → List Ref
  | .place r => r.toList
  | .equation id => (s.rootOf id).toList
  | .builder id => (s.workers[id]?.map (·.builder.held)).getD []
  | .stream _ => []

/-- The nodes that the names hold. -/
def held (s : Session) : List Ref := s.names.flatMap fun (_, object) => s.heldBy object

/-- Releases every node that no name holds. -/
def settle (s : Session) : Session :=
  { s with graph := s.graph.release s.held }

end Session

end Formula
