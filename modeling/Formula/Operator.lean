/-
The four binary operators: how each is spelled, the code it is known by
in the table, how tightly it binds, and what it computes on binary64
numbers.

Everything downstream that splices, evaluates or prints an operator goes
through the names here; `ofSymbol?` is the only place where text becomes
an operator, and it inverts `symbol` exactly.
-/
namespace Formula

/-- A binary operator. -/
inductive Operator where
  | add
  | sub
  | mul
  | div
deriving DecidableEq

namespace Operator

/-- Every operator, in table order. -/
def all : List Operator := [.add, .sub, .mul, .div]

/-- The spelling, one character long. -/
def symbol : Operator → String
  | .add => "+"
  | .sub => "-"
  | .mul => "*"
  | .div => "/"

/-- The word that the operator table lists it under. -/
def name : Operator → String
  | .add => "ADD"
  | .sub => "SUB"
  | .mul => "MUL"
  | .div => "DIV"

/-- The place in the table, counted from zero. -/
def code : Operator → Nat
  | .add => 0
  | .sub => 1
  | .mul => 2
  | .div => 3

/-- How tightly the operator binds; the higher rank binds first. -/
def rank : Operator → Nat
  | .add | .sub => 0
  | .mul | .div => 1

/-- The operator that is spelled exactly so. -/
def ofSymbol? (text : String) : Option Operator :=
  all.find? (·.symbol == text)

/-- The operator at a place in the table. -/
def ofCode? (code : Int) : Option Operator :=
  all.find? fun o => (o.code : Int) == code

/-- What the operator computes. Division by zero follows IEEE-754: it is
infinite, or not a number. -/
def apply : Operator → Float → Float → Float
  | .add, x, y => x + y
  | .sub, x, y => x - y
  | .mul, x, y => x * y
  | .div, x, y => x / y

/-- The same by table place; a place outside the table computes zero. -/
def applyCode (code : Int) (x y : Float) : Float :=
  match ofCode? code with
  | some o => o.apply x y
  | none => 0

-- ============================================== spelling and reading

theorem symbol_injective {o p : Operator} (h : o.symbol = p.symbol) : o = p := by
  cases o <;> cases p <;> simp_all [symbol]

theorem ofSymbol?_symbol (o : Operator) : ofSymbol? o.symbol = some o := by
  cases o <;> decide

/-- Reading accepts exactly the spellings. -/
theorem ofSymbol?_eq_some_iff {text : String} {o : Operator} :
    ofSymbol? text = some o ↔ text = o.symbol := by
  constructor
  · intro h
    have := List.find?_some h
    simpa using (beq_iff_eq.1 this).symm
  · rintro rfl
    exact ofSymbol?_symbol o

end Operator

end Formula
