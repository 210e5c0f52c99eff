import ComponentTags.Digest
import ComponentTags.Table

/-!
# Configurations

What the names of tags may stand for: aliases, the namespaces of classes, directories of views
without classes, and the classes and views that there are.
-/

namespace ComponentTags

/-- A directory of views for components without classes. -/
structure AnonymousPath where
  path : Text
  /-- The hint that the tags of the directory begin with. -/
  label : Option Text
  deriving DecidableEq

/-- The hint of the directory's views: the digest of its label, or of its path without one. -/
def AnonymousPath.hash (p : AnonymousPath) : Text :=
  match p.label with
  | some (c :: cs) => Digest.ofText (c :: cs)
  | _ => Digest.ofText p.path

/-- The root of a namespace: empty, or with a backslash at its end. -/
structure NamespaceRoot where
  text : Text
  closed : text = [] ∨ text.getLast? = some '\\'

/-- The root that a text stands for, with a backslash where one is missing. -/
def NamespaceRoot.ofText (text : Text) : NamespaceRoot :=
  if h : text = [] ∨ text.getLast? = some '\\' then ⟨text, h⟩
  else ⟨text ++ ['\\'], by simp⟩

/-- What the names of tags may stand for. -/
structure Config where
  /-- The classes and views that single tags stand for. -/
  aliases : Table Text := .empty
  /-- The namespaces of the classes that tags with a hint stand for. -/
  namespaces : Table Text := .empty
  /-- The namespace of the application. -/
  appNamespace : NamespaceRoot := .ofText "App\\".toList
  anonymousPaths : List AnonymousPath := []
  /-- The directories of the views that tags with a hint stand for. -/
  anonymousNamespaces : Table Text := .empty
  /-- The parameters of the classes that there are. -/
  classes : Table (List Text) := .empty
  /-- The directories in which views are looked up. -/
  viewPaths : List Text := []
  /-- The directories in which views with a hint are looked up. -/
  viewHints : Table (List Text) := .empty

end ComponentTags
