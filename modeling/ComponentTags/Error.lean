import ComponentTags.Text.Blank

/-!
# Errors

The causes for which a template cannot be compiled or a view cannot be looked up, and what is
said about each.
-/

namespace ComponentTags

/-- A view name with more than one hint. -/
structure ViewError where
  view : Text
  deriving DecidableEq

def ViewError.message (e : ViewError) : Text :=
  "View [".toList ++ e.view ++ "] has an invalid name.".toList

/-- Why a template is not compiled. -/
inductive CompileError where
  /-- Nothing answers to the name of a tag. -/
  | unresolvedTag (tag : Text)
  /-- The name of a tag is an alias, and nothing answers to what it stands for. -/
  | unresolvedAlias (tag target : Text)
  /-- The attributes of a tag have no attribute in them. -/
  | malformedAttributes (attributes : Text)
  deriving DecidableEq

def CompileError.message : CompileError → Text
  | unresolvedTag tag =>
    "Unable to locate a class or view for component [".toList ++ tag ++ "].".toList
  | unresolvedAlias tag target =>
    "Unable to locate class or view [".toList ++ target ++ "] for component [".toList ++ tag ++
      "].".toList
  | malformedAttributes attributes =>
    "Unable to parse attributes [".toList ++ Text.stripBlanks attributes ++ "].".toList

end ComponentTags
