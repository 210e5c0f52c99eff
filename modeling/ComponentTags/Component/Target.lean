import ComponentTags.Text.Basic

/-!
# Targets

A target is what a tag stands for, a class or a view. A strategy is a way to find it.
-/

namespace ComponentTags

/-- What kind of thing a tag stands for. -/
inductive Target.Kind where
  | classBacked
  | view
  | mail
  deriving DecidableEq

def Target.Kind.word : Target.Kind → Text
  | classBacked => "class".toList
  | view => "view".toList
  | mail => "mail".toList

/-- What a tag stands for: a class or a view of some name. -/
structure Target where
  kind : Target.Kind
  name : Text
  tag : Text
  deriving DecidableEq

def Target.isClass (t : Target) : Bool :=
  t.kind = .classBacked

/-- A way to find out what a tag stands for. -/
inductive Strategy where
  /-- The tag is an alias. -/
  | aliased
  /-- The tag begins with the hint of a namespace of classes. -/
  | namespacedClass
  /-- The tag names a class of the application. -/
  | defaultClass
  /-- The tag names a view in a directory for components. -/
  | anonymousNamespace
  /-- The tag names a view in an anonymous path. -/
  | anonymousPath
  /-- The tag names a view for mails. -/
  | mailView
  deriving DecidableEq

/-- The word for a strategy in the record. -/
def Strategy.word : Strategy → Text
  | aliased => "resolve_alias".toList
  | namespacedClass => "resolve_namespaced_class".toList
  | defaultClass => "resolve_default_class".toList
  | anonymousNamespace => "resolve_anonymous_namespace".toList
  | anonymousPath => "resolve_anonymous_path".toList
  | mailView => "resolve_mail_view".toList

end ComponentTags
