import ComponentTags.Text.Basic

/-!
# Tags

A tag as it is found in a template: where it stands, its name, and the text of its attributes.
-/

namespace ComponentTags

/-- What a tag does. -/
inductive Tag.Kind where
  /-- Opens a slot. -/
  | slot
  /-- Stands for a whole component. -/
  | selfClosing
  /-- Opens a component. -/
  | opening
  deriving DecidableEq

/-- A tag in a template, from position `start` up to position `stop`. -/
structure Tag where
  name : Text
  /-- The text of the attributes, with the blanks around them. -/
  attributes : Text
  kind : Tag.Kind
  start : Nat
  stop : Nat
  /-- The name of a slot, written behind a colon. -/
  inlineName : Text
  /-- The name of a slot, written as an attribute, with its quotes. -/
  nameAttribute : Text
  /-- Whether the name of a slot is an expression. -/
  nameBound : Bool

end ComponentTags
