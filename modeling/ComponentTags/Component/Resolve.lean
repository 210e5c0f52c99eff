import ComponentTags.Component.Classes
import ComponentTags.Component.Views
import ComponentTags.Config.Basic
import ComponentTags.Directive
import ComponentTags.Trace

/-!
# What tags stand for

The name of a tag stands for a class or a view. Strategies are tried in this order, and the first
that finds something decides:

1. an alias, which has to stand for something that exists;
2. `hint::alert`, the class `Alert` in the namespace of the hint;
3. `alert`, the class `View\Components\Alert` of the application;
4. `alert`, the view `components.alert`, or one in the directory of an anonymous namespace;
5. `alert`, a view in an anonymous path;
6. `mail::button`, a view for mails.

A view `alert` may also be called `alert.index`.
-/

namespace ComponentTags

open Text

/-- What is asked to find out what tags stand for. -/
structure Resolver where
  config : Config
  classes : Classes
  views : Views

/-- All strategies in their order. -/
def Strategy.default : List Strategy :=
  [aliased, namespacedClass, defaultClass, anonymousNamespace, anonymousPath, mailView]

/-- A view and its other name. -/
def viewSpellings (view : Text) : List Text :=
  [view, view ++ ".index".toList]

namespace Resolver

/-- Whether a view exists; a name that cannot be looked up is the name of none. -/
def hasView (r : Resolver) (view : Text) : Traced Bool :=
  match r.views view with
  | .ok found => ⟨.ok found, [.sought view]⟩
  | .error e => ⟨.ok false, [.sought view, .lookupFailed view e]⟩

def firstView (r : Resolver) (views : List Text) : Traced (Option Text) :=
  Traced.firstSome (fun view => do
    if ← r.hasView view then pure (some view) else pure none) views

/-- The class of the application that a tag names. -/
def defaultClassName (r : Resolver) (tag : Text) : Text :=
  r.config.appNamespace.text ++ "View\\Components\\".toList ++ Name.className tag

/-- The class that a tag names in the namespace of its hint, if there is one. -/
def namespacedClassName? (r : Resolver) (tag : Text) : Option Text :=
  match splitBy Name.hintMark tag with
  | hint :: name :: _ =>
    match r.config.namespaces.get? hint with
    | some space =>
      let className := space ++ ['\\'] ++ Name.className name
      if r.classes.declared className then some className else none
    | none => none
  | _ => none

/-- The views that a tag may stand for in the directories for components. -/
def namespaceViews (r : Resolver) (tag : Text) : List Text :=
  let hinted := r.config.anonymousNamespaces.entries.filter fun e =>
    (e.1 ++ Name.hintMark).isPrefixOf tag
  ((tag, "components".toList) :: hinted).flatMap fun e =>
    viewSpellings (Name.viewIn e.2 (afterFirst (e.1 ++ Name.hintMark) tag))

/-- The name of a tag inside an anonymous path: a tag with a hint has to have the label of the
path as its hint. -/
def nameInPath? (path : AnonymousPath) (tag : Text) : Option Text :=
  if (path.label.getD [] ++ Name.hintMark).isPrefixOf tag then
    some (afterFirst Name.hintMark tag)
  else if occursIn Name.hintMark tag then none
  else some tag

/-- The first of some views that exists, or the refusal of the first that cannot be looked up,
with the views that were looked up. -/
def firstExisting (views : Views) :
    List Text → Except ViewError (Option Text) × List Text
  | [] => (.ok none, [])
  | view :: rest =>
    match views view with
    | .error e => (.error e, [view])
    | .ok true => (.ok (some view), [view])
    | .ok false =>
      let (found, sought) := firstExisting views rest
      (found, view :: sought)

/-- The view that a tag stands for in an anonymous path. A path whose views cannot be looked up
is skipped. -/
def viewInPath (r : Resolver) (tag : Text) (path : AnonymousPath) : Traced (Option Text) :=
  match nameInPath? path tag with
  | none => pure none
  | some name =>
    match firstExisting r.views (viewSpellings (path.hash ++ Name.hintMark ++ name)) with
    | (.ok found, sought) => ⟨.ok found, sought.map .sought⟩
    | (.error e, sought) => ⟨.ok none, sought.map .sought ++ [.pathSkipped path.path tag e]⟩

/-- What a tag stands for as an alias. -/
def byAlias (r : Resolver) (tag : Text) : Traced (Option Target) :=
  match r.config.aliases.get? tag with
  | none => pure none
  | some target =>
    if r.classes.declared target then pure (some ⟨.classBacked, target, tag⟩)
    else do
      if ← r.hasView target then pure (some ⟨.view, target, tag⟩)
      else Traced.fail (.unresolvedAlias tag target)

/-- What a tag stands for by one strategy. -/
def apply (r : Resolver) (tag : Text) : Strategy → Traced (Option Target)
  | .aliased => r.byAlias tag
  | .namespacedClass =>
    pure ((r.namespacedClassName? tag).map fun name => ⟨.classBacked, name, tag⟩)
  | .defaultClass =>
    let name := r.defaultClassName tag
    pure (if r.classes.declared name then some ⟨.classBacked, name, tag⟩ else none)
  | .anonymousNamespace => do
    return (← r.firstView (r.namespaceViews tag)).map fun view => ⟨.view, view, tag⟩
  | .anonymousPath => do
    return (← Traced.firstSome (r.viewInPath tag) r.config.anonymousPaths).map fun view =>
      ⟨.view, view, tag⟩
  | .mailView =>
    pure (if Directive.mailMark.isPrefixOf tag then some ⟨.mail, tag, tag⟩ else none)

/-- What a tag stands for by the first of some strategies that finds something. -/
def resolveBy (r : Resolver) (strategies : List Strategy) (tag : Text) : Traced Target :=
  match strategies with
  | [] => Traced.fail (.unresolvedTag tag)
  | strategy :: rest => do
    match ← r.apply tag strategy with
    | some target =>
      Traced.log (.resolved target strategy)
      return target
    | none => r.resolveBy rest tag

def resolve (r : Resolver) (tag : Text) : Traced Target :=
  r.resolveBy Strategy.default tag

end Resolver

end ComponentTags
