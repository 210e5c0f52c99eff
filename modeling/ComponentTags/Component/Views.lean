import ComponentTags.Error
import ComponentTags.Name

/-!
# Views

The compiler asks a finder whether a view exists. A finder may refuse a name that it cannot make
sense of.
-/

namespace ComponentTags

/-- What the compiler asks about views. -/
abbrev Views := Text → Except ViewError Bool

namespace Views

/-- The finder of a fixed list of views. A name may have one hint at most. -/
def ofList (views : List Text) : Views := fun name =>
  if 1 < Text.occurrences Name.hintMark name then .error ⟨name⟩ else .ok (views.contains name)

/-- The finder that refuses names with one of the given hints, and asks `views` about others. -/
def refusing (hints : List Text) (views : Views) : Views := fun name =>
  if hints.contains ((Text.splitBy Name.hintMark name).headD []) then .error ⟨name⟩
  else views name

end Views

end ComponentTags
