import ComponentTags.Component.Target
import ComponentTags.Error

/-!
# Traced computations

Compiling a template either fails or has a result, and in both cases there is a record of what
was done on the way.
-/

namespace ComponentTags

/-- Something that was done on the way. -/
inductive Event where
  /-- A view was looked up. -/
  | sought (view : Text)
  /-- A view could not be looked up. -/
  | lookupFailed (view : Text) (error : ViewError)
  /-- A view of an anonymous path could not be looked up. -/
  | pathSkipped (path tag : Text) (error : ViewError)
  /-- It was found what a tag stands for. -/
  | resolved (target : Target) (strategy : Strategy)
  /-- A self-closing tag was met. -/
  | selfClosingTag (name : Text)
  /-- An opening tag was met. -/
  | openingTag (name : Text)

/-- What the record says about an event, if anything. -/
def Event.message? : Event → Option Text
  | sought _ => none
  | lookupFailed view error =>
    some ("View lookup for [".toList ++ view ++ "] failed: ".toList ++ error.message)
  | pathSkipped path tag error =>
    some ("Skipping anonymous path ".toList ++ path ++ " for [".toList ++ tag ++ "]: ".toList ++
      error.message)
  | resolved target strategy =>
    some ("Resolved [".toList ++ target.tag ++ "] to ".toList ++ target.kind.word ++ [' '] ++
      target.name ++ " via ".toList ++ strategy.word)
  | selfClosingTag name => some ("Compiling self-closing tag <x-".toList ++ name ++ " />".toList)
  | openingTag name => some ("Compiling opening tag <x-".toList ++ name ++ ['>'])

/-- A result or an error, and what was done on the way to it. -/
structure Traced (α : Type) where
  outcome : Except CompileError α
  events : List Event

namespace Traced

variable {α β : Type}

/-- A result without any events. -/
def ofExcept (outcome : Except CompileError α) : Traced α :=
  ⟨outcome, []⟩

def log (event : Event) : Traced Unit :=
  ⟨.ok (), [event]⟩

def fail (error : CompileError) : Traced α :=
  ⟨.error error, []⟩

instance : Monad Traced where
  pure a := ⟨.ok a, []⟩
  map f x := ⟨x.outcome.map f, x.events⟩
  bind x f :=
    match x.outcome with
    | .error e => ⟨.error e, x.events⟩
    | .ok a =>
      let y := f a
      ⟨y.outcome, x.events ++ y.events⟩

def messages (x : Traced α) : List Text :=
  x.events.filterMap Event.message?

/-- The first result that `f` finds in a list. -/
def firstSome (f : α → Traced (Option β)) : List α → Traced (Option β)
  | [] => pure none
  | a :: rest => do
    match ← f a with
    | some b => pure (some b)
    | none => firstSome f rest

@[simp] theorem outcome_pure (a : α) : (pure a : Traced α).outcome = .ok a := rfl

@[simp] theorem outcome_map (f : α → β) (x : Traced α) :
    (f <$> x).outcome = x.outcome.map f := rfl

@[simp] theorem outcome_bind (x : Traced α) (f : α → Traced β) :
    (x >>= f).outcome = x.outcome.bind fun a => (f a).outcome := by
  obtain ⟨outcome, events⟩ := x
  cases outcome <;> rfl

instance : LawfulMonad Traced := by
  refine LawfulMonad.mk' Traced ?_ ?_ ?_ (fun _ _ => rfl) (fun _ _ => rfl) (fun _ _ => rfl) ?_
    (fun _ _ => rfl)
  · rintro _ ⟨outcome, events⟩
    cases outcome <;> rfl
  · exact fun _ _ => rfl
  · rintro _ _ _ ⟨outcome, events⟩ f g
    cases outcome with
    | error e => rfl
    | ok a =>
      cases hf : (f a).outcome with
      | error e => simp [bind, hf]
      | ok b => simp [bind, hf]
  · rintro _ _ f ⟨outcome, events⟩
    cases outcome with
    | error e => rfl
    | ok a => exact congrArg (Traced.mk _) (List.append_nil events)

end Traced

end ComponentTags
