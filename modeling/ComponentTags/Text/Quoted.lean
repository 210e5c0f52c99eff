import ComponentTags.Text.Basic
import ComponentTags.Text.Printable

/-!
# Quoted texts

Messages show names and paths in quotes: apostrophes around the text, or double quotes if it has
an apostrophe and no double quote. Backslashes and enclosing quotes are escaped, and characters
that cannot be printed are written as their code points.
-/

namespace ComponentTags.Text

/-- The hexadecimal digits of `n`, filled up with zeros to `width` places. -/
def hexPadded (width n : Nat) : Text :=
  let digits := Nat.toDigits 16 n
  List.replicate (width - digits.length) '0' ++ digits

/-- How a character is written between quotes of the kind `quote`. -/
def quotedChar (quote c : Char) : Text :=
  if c = quote ∨ c = '\\' then ['\\', c]
  else if c = '\n' then ['\\', 'n']
  else if c = '\r' then ['\\', 'r']
  else if c = '\t' then ['\\', 't']
  else if printable.contains c then [c]
  else if c.toNat < 0x100 then ['\\', 'x'] ++ hexPadded 2 c.toNat
  else if c.toNat < 0x10000 then ['\\', 'u'] ++ hexPadded 4 c.toNat
  else ['\\', 'U'] ++ hexPadded 8 c.toNat

/-- The text in quotes, on one line and printable. -/
def quoted (text : Text) : Text :=
  let quote := if text.contains '\x27' && !text.contains '"' then '"' else '\x27'
  quote :: text.flatMap (quotedChar quote) ++ [quote]

end ComponentTags.Text
