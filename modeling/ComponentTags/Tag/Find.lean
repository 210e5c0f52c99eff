import ComponentTags.Tag.Scan

/-!
# Finding tags in a template

A grammar finds a tag at a place of a template, and all its tags from left to right; behind a tag
the search goes on at its end. `Grammar.replace` puts other text in the place of every tag.
-/

namespace ComponentTags.Tag.Grammar

/-- The tag with a given head, if attributes and an ending follow it. -/
def complete? (g : Grammar) (c : Cursor) (head : Head) : Option Tag :=
  (g.search head.stop).map fun span => {
    name := head.name
    attributes := head.stop.upTo span.attributesEnd
    kind := g.kind
    start := c.pos
    stop := span.tagEnd.pos
    inlineName := head.inlineName
    nameAttribute := head.nameAttribute
    nameBound := head.nameBound }

/-- The tag at a place, with the first head that can be completed. -/
def tagAt? (g : Grammar) (c : Cursor) : Option Tag :=
  g.heads.findSome? fun head => (head c).bind (g.complete? c)

def hit? (g : Grammar) (c : Cursor) : Option (Tag × Nat) :=
  if g.mayBegin c then (g.tagAt? c).map fun tag => (tag, tag.stop - tag.start) else none

/-- A template cut into characters outside tags, and tags. -/
def pieces (g : Grammar) (template : Text) : List (Piece Tag) :=
  (Cursor.start template).pieces g.hit?

/-- The tags of a template from left to right. -/
def tags (g : Grammar) (template : Text) : List Tag :=
  Piece.items (g.pieces template)

/-- The template with every tag exchanged for what `f` makes of it. -/
def replace (g : Grammar) (f : Tag → Text) (template : Text) : Text :=
  Piece.expand f (g.pieces template)

end ComponentTags.Tag.Grammar
