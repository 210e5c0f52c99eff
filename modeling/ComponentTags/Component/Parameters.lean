import ComponentTags.Component.Classes
import ComponentTags.Name

/-!
# Parameters and other attributes

The attributes of a tag that stands for a class are divided into those that its constructor takes
and the rest. Names are compared in camel case and without regard to capitals.
-/

namespace ComponentTags

/-- The form in which the names of attributes and parameters are compared. -/
def Name.folded (name : Text) : Text :=
  Text.lower (Name.camelCase name)

/-- The attributes that the constructor of a class takes, and the rest. Nothing is known about a
class that does not exist, and so it has all attributes on both sides. -/
def Classes.divide (classes : Classes) (className : Text) (values : Table Text) :
    Table Text × Table Text :=
  if classes.declared className then
    let names := (classes.parameters className).map Name.folded
    (values.filter fun key _ => names.contains (Name.folded key),
      values.filter fun key _ => !names.contains (Name.folded key))
  else (values, values)

end ComponentTags
