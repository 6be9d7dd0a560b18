/-
Why a request is refused.  An error is its cause; `Error.message` words
it, and `Error.token?` and `Error.position?` say which token it is about
and how many tokens had been taken before it.
-/
import Formula.Fault
import Formula.Text.Quoted

namespace Formula

/-- Why a request is refused. -/
inductive Error where
  /-- A value was expected, and the token is no literal. -/
  | notNumber (token : String) (position : Nat)
  /-- An operator was expected, and the token is none. -/
  | notOperator (token : String) (position : Nat)
  /-- The formula ends before it has begun. -/
  | empty (position : Nat)
  /-- The formula ends after an operator. -/
  | trailing (symbol : String) (position : Nat)
  /-- The finished tree was rejected. -/
  | malformed (violations : List String)
  /-- A token was handed to a builder that has built its formula. -/
  | addAfterBuild
  /-- A builder was to build its formula a second time. -/
  | buildAfterBuild
  /-- A graph is not what it was taken for. -/
  | fault (cause : Fault)
  /-- An operator node without operator has no algebraic form. -/
  | noAlgebra
  /-- A whole number is too large for binary64. -/
  | tooLarge
  /-- There is no such order of traversal. -/
  | unknownOrder (name : String)
  /-- There are no more tokens. -/
  | exhausted
deriving DecidableEq

namespace Error

/-- The wording of an error. -/
def message : Error → String
  | .notNumber token _ => Text.quoted token ++ " is not a number"
  | .notOperator token _ => Text.quoted token ++ " is not a valid operator"
  | .empty _ => "Expression is empty"
  | .trailing symbol _ => "Expression ends with operator " ++ Text.quoted symbol
  | .malformed violations => "Malformed expression tree: " ++ "; ".intercalate violations
  | .addAfterBuild => "Cannot add tokens to a finalized builder"
  | .buildAfterBuild => "Builder has already been finalized"
  | .fault cause => cause.message
  | .noAlgebra =>
    "to_sympy reached unexpected operation at node "
      ++ "<class 'equation_parser.expression_tree.core.node.OperatorNode'>"
  | .tooLarge => "int too large to convert to float"
  | .unknownOrder name => "Invalid traversal_order: " ++ name
  | .exhausted => ""

/-- The token that an error is about. -/
def token? : Error → Option String
  | .notNumber token _ | .notOperator token _ | .trailing token _ => some token
  | _ => none

/-- Where among the tokens an error arose. -/
def position? : Error → Option Nat
  | .notNumber _ position | .notOperator _ position | .empty position
  | .trailing _ position => some position
  | _ => none

/-- Whether an error is about the text of a formula. -/
def isSyntactic : Error → Bool
  | .notNumber .. | .notOperator .. | .empty _ | .trailing .. => true
  | _ => false

end Error

end Formula
