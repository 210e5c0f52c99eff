import ComponentTags.Directive
import ComponentTags.Table
import ComponentTags.Text.Numeric

/-!
# Attribute maps

The attributes of a tag as expressions: a literal value is a string in apostrophes, a bound value
is an expression as it is written. In print they are the entries of an array, and bound values go
through the sanitizer unless they are `true` or a number.
-/

namespace ComponentTags

structure Attributes where
  /-- The expression for each attribute. -/
  values : Table Text
  /-- The names that were bound to an expression. -/
  bound : List Text

/-- The value of an attribute without one. -/
def trueValue : Text :=
  "true".toList

def arrayEntry (name value : Text) : Text :=
  ['\x27'] ++ name ++ "' => ".toList ++ value

/-- The entries of an array for a table of expressions, those for which `sanitizes` holds
through the sanitizer. -/
def arrayEntries (sanitizes : Text → Bool) (values : Table Text) : Text :=
  Text.joinWith [','] (values.entries.map fun entry =>
    arrayEntry entry.1
      (if sanitizes entry.1 && entry.2 != trueValue && !Text.isNumber entry.2 then
        Directive.sanitizerCall entry.2
      else entry.2))

/-- The entries of an array as the expressions are. -/
def plainEntries (values : Table Text) : Text :=
  arrayEntries (fun _ => false) values

namespace Attributes

def empty : Attributes :=
  ⟨Table.empty, []⟩

/-- Whether a name was bound to an expression. -/
def isBound (attributes : Attributes) (name : Text) : Bool :=
  attributes.bound.contains name

/-- The attributes with a literal value under a name. -/
def putLiteral (attributes : Attributes) (name value : Text) : Attributes :=
  { attributes with values := attributes.values.put name value }

/-- The attributes with a bound value: `name` is where the value goes, `boundName` the name that
counts as bound. -/
def putBound (attributes : Attributes) (boundName name value : Text) : Attributes where
  values := attributes.values.put name value
  bound := if attributes.bound.contains boundName then attributes.bound
    else attributes.bound ++ [boundName]

/-- The entries of an array with the bound values sanitized. -/
def sanitizedEntries (attributes : Attributes) : Text :=
  arrayEntries attributes.isBound attributes.values

end Attributes

end ComponentTags
