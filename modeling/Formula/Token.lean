/-
Cutting a text into tokens.  A character is a numeral when it is an ASCII
digit or a decimal point; a text falls into maximal runs of numerals and
of other characters, and the runs, trimmed of blanks, are its tokens.  A
run that is blank throughout gives none.  Nothing is judged here: whether
a token is a literal or an operator is for the builder to say.
-/
import Formula.Text.Blank

namespace Formula.Token

/-- The characters that numbers are written with. -/
def isNumeral (c : Char) : Bool := c.isDigit || c == '.'

/-- Whether two neighbours belong to one run. -/
def sameRun (a b : Char) : Bool := isNumeral a == isNumeral b

/-- The tokens of a text, as lists of characters. -/
def scan (text : List Char) : List (List Char) :=
  ((text.splitBy sameRun).map Text.trim).filter (!·.isEmpty)

/-- The tokens of a text, in the order in which they are written. -/
def tokenize (text : String) : List String :=
  (scan text.toList).map String.ofList

end Formula.Token
