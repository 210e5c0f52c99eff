import ComponentTags.Text.Case
import ComponentTags.Text.Piece

/-!
# Names

How the words of a name are joined: `forms.text-input` names the class `Forms\TextInput`, and
the attribute `text-input` the parameter `textInput`. A view name may begin with a hint, which
`::` divides from the rest.
-/

namespace ComponentTags.Name

open Text

/-- The characters between the words of a name. -/
def isWordBreak (c : Char) : Bool :=
  c == '-' || c == '_' || c == ' '

/-- The words of a name, each with a capital, in one. -/
def studlyCase (name : Text) : Text :=
  (name.splitOnP isWordBreak).flatMap upperFirst

/-- The words of a name in one, with a capital at each word but the first. -/
def camelCase (name : Text) : Text :=
  lowerFirst (studlyCase name)

/-- Divides the hint of a view name from the rest. -/
def hintMark : Text :=
  [':', ':']

/-- The class that a dotted name stands for, relative to its namespace. -/
def className (name : Text) : Text :=
  joinWith ['\\'] ((name.splitOn '.').map fun piece => upperFirst (camelCase piece))

/-- The name of a view in a directory, which goes behind the hint if the name has one. -/
def viewIn (directory name : Text) : Text :=
  let directory := if ['.'].isSuffixOf directory then directory else directory ++ ['.']
  if occursIn hintMark name then replaceFirst hintMark (hintMark ++ directory) name
  else directory ++ name

end ComponentTags.Name
