/-
What a formula is written with: numbers and operators.  A builder reads a
token as the one that it expects (`Item.read?`), but nothing is written
like both, so that what a token stands for is a matter of the token alone
(`ofToken?_of_read?`).

A plan grows by one item at a time, a number into its vacancy or an
operator at its pivot (`grow`), and in either case what is written comes
last when the plan is read from left to right (`items_grow`).
-/
import Formula.Proofs.Builder.Invariant

namespace Formula

/-- A number or an operator. -/
inductive Item where
  | number (x : Float)
  | operator (op : Operator)

namespace Item

/-- What a token stands for where something is expected. -/
def read? (e : Expected) (token : String) : Option Item :=
  match e with
  | .value => (Literal.read? token).map .number
  | .operator => (Operator.ofSymbol? token).map .operator

/-- What a token stands for. -/
def ofToken? (token : String) : Option Item :=
  match Literal.read? token with
  | some x => some (.number x)
  | none => (Operator.ofSymbol? token).map .operator

/-- The number, if it is one. -/
def number? : Item → Option Float
  | .number x => some x
  | .operator _ => none

/-- The operator, if it is one. -/
def operator? : Item → Option Operator
  | .number _ => none
  | .operator op => some op

@[simp] theorem number?_number (x : Float) : (number x).number? = some x := rfl

@[simp] theorem number?_operator (op : Operator) : (operator op).number? = none :=
  rfl

@[simp] theorem operator?_number (x : Float) : (number x).operator? = none := rfl

@[simp] theorem operator?_operator (op : Operator) :
    (operator op).operator? = some op := rfl

/-- No operator is spelled like a number. -/
theorem read?_symbol (op : Operator) : Literal.read? op.symbol = none := by
  cases op <;> decide +kernel

/-- A token that is read as what is expected stands for that. -/
theorem ofToken?_of_read? {e : Expected} {token : String} {item : Item}
    (h : read? e token = some item) : ofToken? token = some item := by
  cases e with
  | value =>
      obtain ⟨x, hx, rfl⟩ := Option.map_eq_some_iff.1 h
      rw [ofToken?, hx]
  | operator =>
      obtain ⟨op, hop, rfl⟩ := Option.map_eq_some_iff.1 h
      have hspelled := Operator.ofSymbol?_eq_some_iff.1 hop
      rw [ofToken?, hspelled, read?_symbol, Operator.ofSymbol?_symbol]
      rfl

end Item

namespace Plan

/-- The plan with one more item. -/
def grow (n : Ref) : Item → Plan → Plan
  | .number x, p => p.fill n x
  | .operator op, p => p.splice n op

/-- What is written, from left to right. -/
def items : Plan → List Item
  | .vacant => []
  | .leaf _ x => [.number x]
  | .node _ op left right => left.items ++ .operator op :: right.items

variable {n : Ref} {p : Plan}

theorem items_fill (x : Float) (h : p.Open) :
    (p.fill n x).items = p.items ++ [.number x] := by
  induction p with
  | vacant => rfl
  | leaf r y => exact h.elim
  | node r o left right _ ihr =>
      rw [fill, items, items, ihr h.2, List.append_assoc, List.cons_append]

theorem items_splice (op : Operator) (p : Plan) :
    (p.splice n op).items = p.items ++ [.operator op] := by
  induction p with
  | vacant => rfl
  | leaf r x => rfl
  | node r o left right _ ihr =>
      rw [splice]
      split
      · rfl
      · rw [items, items, ihr, List.append_assoc, List.cons_append]

/-- What is written when it is expected comes last. -/
theorem items_grow {e : Expected} {token : String} {item : Item}
    (hfits : p.Fits e) (hread : Item.read? e token = some item) :
    (p.grow n item).items = p.items ++ [item] := by
  cases e with
  | value =>
      obtain ⟨x, -, rfl⟩ := Option.map_eq_some_iff.1 hread
      exact items_fill x hfits
  | operator =>
      obtain ⟨op, -, rfl⟩ := Option.map_eq_some_iff.1 hread
      exact items_splice op p

theorem length_items (p : Plan) : p.items.length = p.refs.length := by
  induction p with
  | vacant => rfl
  | leaf r x => rfl
  | node r op left right ihl ihr =>
      simp only [items, refs, List.length_append, List.length_cons, ihl, ihr]

end Plan

end Formula
