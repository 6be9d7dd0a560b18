/-
Quoting a text so that it can stand in a message.  The mark is the single
quote, unless the text holds one and holds no double quote.  Inside the
marks the mark itself and the backslash are escaped, the three common
line characters have short names, and every other hidden character is
given by its code point in two, four or eight hexadecimal digits.
-/
import Formula.Text.Printable

namespace Formula.Text

/-- A number in hexadecimal, filled up with zeros to `width` digits. -/
def hex (width n : Nat) : List Char :=
  let digits := Nat.toDigits 16 n
  List.replicate (width - digits.length) '0' ++ digits

/-- The mark that a text is quoted with. -/
def quoteMark (text : List Char) : Char :=
  if text.contains '\'' && !text.contains '"' then '"' else '\''

/-- A hidden character by its code point, in the shortest form that
fits. -/
def codePoint (c : Char) : List Char :=
  if c.toNat < 0x100 then '\\' :: 'x' :: hex 2 c.toNat
  else if c.toNat < 0x10000 then '\\' :: 'u' :: hex 4 c.toNat
  else '\\' :: 'U' :: hex 8 c.toNat

/-- A character inside the marks. -/
def escape (mark : Char) (c : Char) : List Char :=
  if c = mark || c = '\\' then ['\\', c]
  else if c = '\n' then ['\\', 'n']
  else if c = '\r' then ['\\', 'r']
  else if c = '\t' then ['\\', 't']
  else if isPrintable c then [c]
  else codePoint c

/-- A text in quotes. -/
def quoted (text : String) : String :=
  let chars := text.toList
  let mark := quoteMark chars
  String.ofList (mark :: chars.flatMap (escape mark) ++ [mark])

/-- Several texts in quotes, in brackets and set apart by commas. -/
def quotedList (texts : List String) : String :=
  "[" ++ ", ".intercalate (texts.map quoted) ++ "]"

end Formula.Text
