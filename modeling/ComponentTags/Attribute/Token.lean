import ComponentTags.Text.Blank
import ComponentTags.Text.Piece

/-!
# Attribute tokens

An attribute is a name, alone or with an equals sign and a value: in double quotes, in
apostrophes, or bare up to a space or a closing angle bracket. What cannot begin a name is passed
over.
-/

namespace ComponentTags

/-- An attribute as it is written. -/
structure Token where
  name : Text
  /-- The value with its quotes. -/
  value : Option Text

namespace Token

open Text

/-- A value between two `quote`s with something between them, quotes included. -/
def quotedValue? (quote : Char) : Text → Option Text
  | [] => none
  | c :: rest =>
    let inner := rest.takeWhile (· != quote)
    if c = quote ∧ inner ≠ [] ∧ inner.length < rest.length then some (c :: inner ++ [quote])
    else none

/-- Whether a character can stand in a value without quotes. -/
def isBareChar (c : Char) : Bool :=
  !isSpace c && c != '>'

def bareValue? (text : Text) : Option Text :=
  let run := text.takeWhile isBareChar
  if run = [] then none else some run

/-- The value at the front of a text. -/
def value? (text : Text) : Option Text :=
  quotedValue? '"' text <|> quotedValue? '\x27' text <|> bareValue? text

def token? (c : Cursor) : Option (Token × Nat) :=
  let name := c.rest.takeWhile isAttributeNameChar
  if name = [] then none
  else
    match c.rest.drop name.length with
    | '=' :: rest =>
      match value? rest with
      | some value => some (⟨name, some value⟩, name.length + 1 + value.length)
      | none => some (⟨name, none⟩, name.length)
    | _ => some (⟨name, none⟩, name.length)

def all (text : Text) : List Token :=
  Piece.items ((Cursor.start text).pieces token?)

end Token

end ComponentTags
