import ComponentTags.Text.Basic

/-!
# Blank characters

Two sets of blank characters are in use. `isBlank` knows every blank of Unicode, together with
the four separators below the space; `isSpace` knows only the six blanks of ASCII. Every space
is a blank.
-/

namespace ComponentTags.Text

/-- Space, tab, line feed, vertical tab, form feed and carriage return. -/
def isSpace (c : Char) : Bool :=
  c.toNat == 0x20 || (0x09 ≤ c.toNat && c.toNat ≤ 0x0D)

/-- The blanks of all scripts. -/
def isBlank (c : Char) : Bool :=
  isSpace c || (0x1C ≤ c.toNat && c.toNat ≤ 0x1F) || c.toNat == 0x85 || c.toNat == 0xA0 ||
    c.toNat == 0x1680 || (0x2000 ≤ c.toNat && c.toNat ≤ 0x200A) || c.toNat == 0x2028 ||
    c.toNat == 0x2029 || c.toNat == 0x202F || c.toNat == 0x205F || c.toNat == 0x3000

theorem isBlank_of_isSpace {c : Char} (h : isSpace c = true) : isBlank c = true := by
  simp [isBlank, h]

/-- Letters, digits and the underscore of ASCII. -/
def isWordChar (c : Char) : Bool :=
  c.isAlphanum || c == '_'

/-- The characters of a tag name: word characters, hyphen, colon and full stop. -/
def isTagNameChar (c : Char) : Bool :=
  isWordChar c || c == '-' || c == ':' || c == '.'

/-- The characters of an attribute name: those of a tag name and the at sign. -/
def isAttributeNameChar (c : Char) : Bool :=
  isTagNameChar c || c == '@'

def stripBlanks (text : Text) : Text :=
  trim isBlank text

end ComponentTags.Text
