/-
Blank characters, and trimming them from both ends of a text.  The table
is Unicode's: what has the property White_Space, and the four separators
U+001C to U+001F.
-/
namespace Formula.Text

/-- The blank characters, as closed ranges of code points. -/
def blanks : List (Nat × Nat) :=
  [(0x09, 0x0d), (0x1c, 0x20), (0x85, 0x85), (0xa0, 0xa0), (0x1680, 0x1680),
   (0x2000, 0x200a), (0x2028, 0x2029), (0x202f, 0x202f), (0x205f, 0x205f),
   (0x3000, 0x3000)]

/-- Whether a character is blank. -/
def isBlank (c : Char) : Bool :=
  blanks.any fun (first, last) => first ≤ c.toNat && c.toNat ≤ last

/-- A text without the blanks at its two ends. -/
def trim (text : List Char) : List Char :=
  ((text.dropWhile isBlank).reverse.dropWhile isBlank).reverse

end Formula.Text
