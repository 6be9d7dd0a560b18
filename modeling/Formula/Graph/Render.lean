/-
Graphs as text: a whole formula in infix form, with parentheses around
every operation, and a single node's label, by which messages and
listings name it.
-/
import Formula.Graph.Fold
import Formula.Decimal
import Formula.Text.Quoted

namespace Formula

/-- An operation written out. -/
def Operator.infixText (o : Operator) (left right : String) : String :=
  "(" ++ left ++ " " ++ o.symbol ++ " " ++ right ++ ")"

namespace Graph

/-- The formula below a place, numbers in their brief form. -/
def render (g : Graph) (r : Option Ref) : Except Defect String :=
  g.fold Decimal.brief Operator.infixText r

/-- A label: the kind of node, and in parentheses what it holds. -/
def labelOf (holder : Holder) (held : String) : String :=
  holder.name ++ "(" ++ held ++ ")"

/-- The label of what a node holds; without its operator an operator
node has none. -/
def contentLabel : Content → Except Fault String
  | .value x => .ok (labelOf .value (Decimal.faithful x))
  | .operator (some o) _ _ => .ok (labelOf .operator (Text.quoted o.symbol))
  | .operator none _ _ => .error (.lacks .nothing "symbol")
  | .foreign kind => .ok (labelOf (.foreign kind) "")

/-- The label of what stands at a place. -/
def label (g : Graph) (r : Option Ref) : Except Fault String :=
  match r.bind g.content? with
  | some c => contentLabel c
  | none => .ok "None"

/-- The label of what stands at a place, if anything does. -/
def label? (g : Graph) (r : Option Ref) : Except Fault (Option String) :=
  match r with
  | some r => some <$> g.label (some r)
  | none => .ok none

-- ============================================================ outlines

/-- One entry of an outline. -/
inductive Entry where
  | symbol (text : String)
  | number (x : Float)
  | gap
deriving BEq

/-- The tree below a place as a flat list: an operator is followed by its
left and then by its right operand, a missing one leaves a gap. -/
def outlineAt (g : Graph) : Nat → Option Ref → Except Fault (List Entry)
  | n, r =>
    match r.bind g.content? with
    | none => .ok [.gap]
    | some (.value x) => .ok [.number x]
    | some (.foreign kind) => .ok [.symbol (labelOf (.foreign kind) "")]
    | some (.operator op left right) =>
      match n with
      | 0 => .error .endless
      | n + 1 => do
        let some o := op | .error (.lacks .nothing "symbol")
        return .symbol o.symbol :: (← g.outlineAt n left) ++ (← g.outlineAt n right)

/-- The outline of the tree below a place. -/
def outline (g : Graph) (r : Option Ref) : Except Fault (List Entry) :=
  g.outlineAt g.size r

end Graph

end Formula
