import ComponentTags.Config.Load
import Mathlib.Data.List.Basic

/-!
# What a configuration is checked for

To load a configuration is to check its members and then to read them. The checks stand in a list,
in the order in which they are made (`checks`); the first that fails is the error, and if none
fails, what is read (`reading`) is the configuration (`ofMembers_eq_checked`).

1. Two steps that are checked before they are read make one such step (`checked_bind`), and so do
   the steps of a loop (`mapM_checked`, `foldlM_checked`).
2. Each part of the loader is such a step. Its checks come from the key of the member and what the
   member may be (`Member.checks`).
3. All checks of a member pass if and only if it is what it may be (`Member.accepts_iff`).
-/

namespace ComponentTags

/-! ## Shapes -/

/-- The data that has a shape. A list without items has the shape of an object. -/
def Shape.Accepts : Shape → Data → Prop
  | object, value => value = .list [] ∨ ∃ inner, value = .object inner
  | list, value => ∃ items, value = .list items
  | string, value => ∃ text, value = .text text
  | strings, value =>
    (∃ text, value = .text text) ∨
      ∃ items, value = .list items ∧ ∀ item ∈ items, ∃ text, item = .text text
  | path, value =>
    (∃ text, value = .text text) ∨
      ∃ inner text, value = .object inner ∧ inner.lookup "path".toList = some (.text text)

def Data.isText : Data → Bool
  | .text _ => true
  | _ => false

theorem Data.isText_iff {value : Data} : value.isText = true ↔ ∃ text, value = .text text := by
  cases value <;> simp [isText]

theorem Data.any_isText_iff {found : Option Data} :
    found.any isText = true ↔ ∃ text, found = some (.text text) := by
  cases found <;> simp [isText_iff]

def Shape.accepts : Shape → Data → Bool
  | object, .object _ => true
  | object, .list items => items.isEmpty
  | list, .list _ => true
  | string, value => value.isText
  | strings, .list items => items.all Data.isText
  | strings, value => value.isText
  | path, .object inner => (inner.lookup "path".toList).any Data.isText
  | path, value => value.isText
  | _, _ => false

theorem Shape.accepts_iff {shape : Shape} {value : Data} :
    shape.accepts value = true ↔ shape.Accepts value := by
  cases shape with
  | object => cases value <;> simp [accepts, Accepts]
  | list => cases value <;> simp [accepts, Accepts]
  | string => exact Data.isText_iff
  | strings => cases value <;> simp [accepts, Accepts, Data.isText, ← Data.isText_iff]
  | path =>
    cases value with
    | object inner => simpa [accepts, Accepts] using Data.any_isText_iff
    | _ => simp [accepts, Accepts, Data.isText]

/-! ## Checks -/

/-- A check of the data under a key. -/
structure Check where
  key : Text
  shape : Shape
  value : Data

namespace Check

def passes (c : Check) : Bool :=
  c.shape.accepts c.value

def error (c : Check) : ConfigError :=
  .wrongShape c.key c.shape

end Check

namespace Config

variable {α β : Type} {f : α → Except ConfigError β} {before after : List Check} {a : α} {b : β}

/-- The error of the first check that fails, or the value if none does. -/
def checked (checks : List Check) (value : α) : Except ConfigError α :=
  match checks.find? fun c => !c.passes with
  | some c => .error c.error
  | none => .ok value

theorem checked_cons (c : Check) (checks : List Check) (value : α) :
    checked (c :: checks) value =
      bif c.passes then checked checks value else .error c.error := by
  unfold checked
  cases h : c.passes <;> simp [h]

theorem checked_of_forall {checks : List Check} (h : ∀ c ∈ checks, c.passes = true) (value : α) :
    checked checks value = .ok value := by
  unfold checked
  rw [List.find?_eq_none.2 fun c hc => by simpa using h c hc]

theorem exists_checked_eq_ok_iff {checks : List Check} {value : α} :
    (∃ result, checked checks value = .ok result) ↔ ∀ c ∈ checks, c.passes = true := by
  refine ⟨?_, fun h => ⟨value, checked_of_forall h value⟩⟩
  rintro ⟨result, h⟩ c hc
  unfold checked at h
  split at h
  · cases h
  · next hfind => simpa using List.find?_eq_none.1 hfind c hc

theorem checked_eq_error_iff {checks : List Check} {value : α} {e : ConfigError} :
    checked checks value = .error e ↔ ∃ before c after, checks = before ++ c :: after ∧
      (∀ d ∈ before, d.passes = true) ∧ c.passes = false ∧ e = c.error := by
  have hfirst : ∀ c, checks.find? (fun c => !c.passes) = some c ↔ ∃ before after,
      checks = before ++ c :: after ∧ (∀ d ∈ before, d.passes = true) ∧ c.passes = false := by
    intro c
    rw [List.find?_eq_some_iff_append]
    constructor
    · rintro ⟨hc, before, after, hsplit, hbefore⟩
      exact ⟨before, after, hsplit, by simpa using hbefore, by simpa using hc⟩
    · rintro ⟨before, after, hsplit, hbefore, hc⟩
      exact ⟨by simpa using hc, before, after, hsplit, by simpa using hbefore⟩
  constructor
  · intro h
    unfold checked at h
    split at h
    · next c hfind =>
      obtain ⟨before, after, hsplit, hbefore, hc⟩ := (hfirst c).1 hfind
      exact ⟨before, c, after, hsplit, hbefore, hc, (Except.error.inj h).symm⟩
    · cases h
  · rintro ⟨before, c, after, hsplit, hbefore, hc, rfl⟩
    unfold checked
    rw [(hfirst c).2 ⟨before, after, hsplit, hbefore, hc⟩]

/-- What is checked and read in two steps can be checked first and then read. -/
theorem checked_bind (h : f a = checked after b) :
    (checked before a >>= f) = checked (before ++ after) b := by
  induction before with
  | nil => exact h
  | cons c before ih =>
    rw [List.cons_append, checked_cons, checked_cons]
    cases c.passes with
    | true => exact ih
    | false => rfl

theorem checked_map (g : α → β) : (do return g (← checked before a)) = checked before (g a) := by
  have h : (do return g (← checked before a)) = checked (before ++ []) (g a) := checked_bind rfl
  rwa [List.append_nil] at h

theorem mapM_checked {checks : α → List Check} {g : α → β} (h : ∀ a, f a = checked (checks a) (g a))
    (l : List α) : l.mapM f = checked (l.flatMap checks) (l.map g) := by
  induction l with
  | nil => rfl
  | cons a l ih =>
    rw [List.mapM_cons, h, List.flatMap_cons]
    refine checked_bind ?_
    rw [ih, List.map_cons]
    exact checked_map _

theorem foldlM_checked {f : β → α → Except ConfigError β} {checks : α → List Check}
    {g : β → α → β} (h : ∀ b a, f b a = checked (checks a) (g b a)) (l : List α) (b : β) :
    l.foldlM f b = checked (l.flatMap checks) (l.foldl g b) := by
  induction l generalizing b with
  | nil => rfl
  | cons a l ih =>
    rw [List.foldlM_cons, h, List.flatMap_cons, List.foldl_cons]
    exact checked_bind (ih _)

/-! ## Strings -/

def textOf : Data → Text
  | .text value => value
  | _ => []

/-- The texts of a string or of a list of strings. -/
def textsOf : Data → List Text
  | .text value => [value]
  | .list items => items.map textOf
  | _ => []

theorem string_eq (key : Text) (value : Data) :
    string key value = checked [⟨key, .string, value⟩] (textOf value) := by
  cases value <;> rfl

theorem texts?_eq (items : List Data) :
    texts? items = if items.all Data.isText then some (items.map textOf) else none := by
  induction items with
  | nil => rfl
  | cons item items ih =>
    cases item with
    | text value =>
      rw [texts?, ih]
      by_cases h : items.all Data.isText <;> simp [h, Data.isText, textOf]
    | _ => simp [texts?, Data.isText]

theorem strings_eq (key : Text) (value : Data) :
    strings key value = checked [⟨key, .strings, value⟩] (textsOf value) := by
  cases value with
  | list items =>
    have hpasses : (Check.mk key .strings (.list items)).passes = items.all Data.isText := rfl
    rw [strings, texts?_eq, checked_cons, hpasses]
    cases items.all Data.isText <;> rfl
  | _ => rfl

/-! ## Anonymous paths -/

/-- The label of an anonymous path. Null is no label. -/
def label? : Data → Option Data
  | .object inner =>
    match inner.lookup "prefix".toList with
    | some .null => none
    | found => found
  | _ => none

def pathOf : Data → Text
  | .object inner => ((inner.lookup "path".toList).map textOf).getD []
  | value => textOf value

/-- The checks of an anonymous path: it has a path, and its label is a string. -/
def pathChecks (key : Text) (value : Data) : List Check :=
  ⟨key, .path, value⟩ ::
    (label? value).toList.map fun label => ⟨dotted key "prefix".toList, .string, label⟩

def anonymousPathOf (base : Option Path) (value : Data) : AnonymousPath :=
  ⟨located base (pathOf value), (label? value).map textOf⟩

theorem readAnonymousPath_eq (base : Option Path) (key : Text) (value : Data) :
    readAnonymousPath base key value =
      checked (pathChecks key value) (anonymousPathOf base value) := by
  rw [pathChecks, checked_cons]
  unfold readAnonymousPath Check.passes Shape.accepts anonymousPathOf label? pathOf
  cases value with
  | text path => rfl
  | object inner =>
    dsimp only
    generalize inner.lookup "path".toList = path
    generalize inner.lookup "prefix".toList = label
    cases path with
    | none => rfl
    | some path =>
      cases path with
      | text path =>
        cases label with
        | none => rfl
        | some label =>
          cases label with
          | null => rfl
          | _ =>
            dsimp only
            rw [string_eq]
            exact checked_map _
      | _ => rfl
  | _ => rfl

/-! ## Members -/

/-- What a member of a configuration may be. -/
inductive Member where
  /-- An object whose parts have a shape. -/
  | objectOf (part : Shape)
  /-- A list of anonymous paths. -/
  | anonymousPaths
  /-- Data of a shape. -/
  | plain (shape : Shape)

def parts : Data → List (Text × Data)
  | .object inner => inner
  | _ => []

def items : Data → List Data
  | .list items => items
  | _ => []

/-- The checks of a member: first of the member itself, then of its parts in their order. -/
def Member.checks (key : Text) : Member → Data → List Check
  | objectOf part, value =>
    ⟨key, .object, value⟩ :: (parts value).map fun e => ⟨dotted key e.1, part, e.2⟩
  | anonymousPaths, value =>
    ⟨key, .list, value⟩ ::
      (items value).zipIdx.flatMap fun item => pathChecks (indexed key item.2) item.1
  | plain shape, value => [⟨key, shape, value⟩]

/-- The members of a configuration, in the order in which they are looked at. -/
def layout : List (Text × Member) :=
  [("namespaces".toList, .objectOf .strings),
    ("view_hints".toList, .objectOf .strings),
    ("anonymous_paths".toList, .anonymousPaths),
    ("app_namespace".toList, .plain .string),
    ("view_paths".toList, .plain .strings),
    ("paths".toList, .plain .strings),
    ("aliases".toList, .objectOf .string),
    ("anonymous_namespaces".toList, .objectOf .string),
    ("classes".toList, .objectOf .strings)]

/-- The checks of the member under a key. A missing member has none. -/
def checksAt (members : List (Text × Data)) (m : Text × Member) : List Check :=
  (members.lookup m.1).toList.flatMap (m.2.checks m.1)

/-- All checks, in the order in which they are made. -/
def checks (members : List (Text × Data)) : List Check :=
  layout.flatMap (checksAt members)

def partsAt (members : List (Text × Data)) (key : Text) : List (Text × Data) :=
  (members.lookup key).elim [] parts

def itemsAt (members : List (Text × Data)) (key : Text) : List Data :=
  (members.lookup key).elim [] items

def textsAt (members : List (Text × Data)) (key : Text) : List Text :=
  (members.lookup key).elim [] textsOf

variable {members : List (Text × Data)} {key : Text} {base : Option Path}

theorem objectAt_bind {f : List (Text × Data) → Except ConfigError α} {part : Shape}
    {g : List (Text × Data) → α}
    (h : ∀ inner, f inner = checked (inner.map fun e => ⟨dotted key e.1, part, e.2⟩) (g inner)) :
    (objectAt members key >>= f) =
      checked (checksAt members (key, .objectOf part)) (g (partsAt members key)) := by
  unfold objectAt checksAt partsAt
  cases members.lookup key with
  | none => exact h []
  | some value =>
    rw [Option.toList_some, List.flatMap_singleton, Member.checks, checked_cons]
    cases value with
    | object inner => exact h inner
    | list items =>
      cases items with
      | nil => exact h []
      | cons item items => rfl
    | _ => rfl

theorem listAt_bind {f : List Data → Except ConfigError α} {g : List Data → α}
    (h : ∀ items, f items = checked
      (items.zipIdx.flatMap fun item => pathChecks (indexed key item.2) item.1) (g items)) :
    (listAt members key >>= f) =
      checked (checksAt members (key, .anonymousPaths)) (g (itemsAt members key)) := by
  unfold listAt checksAt itemsAt
  cases members.lookup key with
  | none => exact h []
  | some value =>
    rw [Option.toList_some, List.flatMap_singleton, Member.checks, checked_cons]
    cases value with
    | list items => exact h items
    | _ => rfl

theorem stringsAt_eq (members : List (Text × Data)) (key : Text) :
    stringsAt members key = checked (checksAt members (key, .plain .strings))
      (textsAt members key) := by
  unfold stringsAt checksAt textsAt
  cases members.lookup key with
  | none => rfl
  | some value => exact strings_eq key value

theorem tableAt_eq {read : Text → Data → Except ConfigError α} {part : Shape} {g : Data → α}
    (h : ∀ key value, read key value = checked [⟨key, part, value⟩] (g value)) :
    tableAt read members key = checked (checksAt members (key, .objectOf part))
      (.ofList ((partsAt members key).map fun e => (e.1, g e.2))) := by
  refine objectAt_bind (g := fun inner => Table.ofList (inner.map fun e => (e.1, g e.2)))
    fun inner => ?_
  have hentry : ∀ e : Text × Data, (do return (e.1, ← read (dotted key e.1) e.2)) =
      checked [⟨dotted key e.1, part, e.2⟩] (e.1, g e.2) := by
    intro e
    rw [h]
    exact checked_map _
  rw [mapM_checked hentry, ← List.map_eq_flatMap]
  exact checked_map _

/-! ## The parts of a configuration -/

/-- The directories that a string or a list of strings stands for. -/
def directoriesOf (base : Option Path) (value : Data) : List Text :=
  (textsOf value).map (located base)

/-- The tables of namespaces and of hints with one more entry of the namespaces. -/
def addNamespace (base : Option Path) (tables : Table Text × Table (List Text)) (e : Text × Data) :
    Table Text × Table (List Text) :=
  match e.2 with
  | .text target => (tables.1.put e.1 target, tables.2)
  | value => (tables.1, tables.2.put e.1 (directoriesOf base value))

/-- The table of hints with more directories for one of them. -/
def addHint (base : Option Path) (hints : Table (List Text)) (e : Text × Data) :
    Table (List Text) :=
  hints.put e.1 ((hints.get? e.1).getD [] ++ directoriesOf base e.2)

/-- The namespaces of classes, and the hints that are listed among them. -/
def namespacesOf (base : Option Path) (members : List (Text × Data)) :
    Table Text × Table (List Text) :=
  (partsAt members "namespaces".toList).foldl (addNamespace base) (.empty, .empty)

theorem readNamespaces_eq (base : Option Path) (members : List (Text × Data)) :
    readNamespaces base members =
      checked (checksAt members ("namespaces".toList, .objectOf .strings))
        (namespacesOf base members) := by
  refine objectAt_bind (g := fun inner => inner.foldl (addNamespace base) (.empty, .empty))
    fun inner => ?_
  rw [List.map_eq_flatMap]
  refine foldlM_checked (fun tables e => ?_) inner _
  obtain ⟨name, value⟩ := e
  cases value with
  | text target => rfl
  | _ =>
    dsimp only
    rw [strings_eq]
    exact checked_map _

theorem readHints_eq (base : Option Path) (members : List (Text × Data))
    (hints : Table (List Text)) :
    readHints base members hints =
      checked (checksAt members ("view_hints".toList, .objectOf .strings))
        ((partsAt members "view_hints".toList).foldl (addHint base) hints) := by
  refine objectAt_bind (g := fun inner => inner.foldl (addHint base) hints) fun inner => ?_
  rw [List.map_eq_flatMap]
  refine foldlM_checked (fun hints e => ?_) inner _
  rw [strings_eq]
  exact checked_map _

theorem readAnonymousPaths_eq (base : Option Path) (members : List (Text × Data)) :
    readAnonymousPaths base members =
      checked (checksAt members ("anonymous_paths".toList, .anonymousPaths))
        ((itemsAt members "anonymous_paths".toList).map (anonymousPathOf base)) := by
  refine listAt_bind (g := fun items => items.map (anonymousPathOf base)) fun items => ?_
  have hpath : ∀ item : Data × Nat,
      readAnonymousPath base (indexed "anonymous_paths".toList item.2) item.1 =
        checked (pathChecks (indexed "anonymous_paths".toList item.2) item.1)
          (anonymousPathOf base item.1) :=
    fun item => readAnonymousPath_eq base _ item.1
  have hmap : (items.zipIdx.map fun item => anonymousPathOf base item.1) =
      (items.zipIdx.map Prod.fst).map (anonymousPathOf base) := by
    rw [List.map_map]
    rfl
  rw [mapM_checked hpath, hmap, List.zipIdx_map_fst]

theorem readAppNamespace_eq (members : List (Text × Data)) :
    readAppNamespace members =
      checked (checksAt members ("app_namespace".toList, .plain .string))
        (.ofText ((members.lookup "app_namespace".toList).elim "App\\".toList textOf)) := by
  unfold readAppNamespace checksAt
  dsimp only
  cases members.lookup "app_namespace".toList with
  | none => rfl
  | some value =>
    dsimp only
    rw [string_eq]
    exact checked_map _

/-- The configuration that is read where all checks pass. -/
def reading (base : Option Path) (members : List (Text × Data)) : Config where
  aliases := .ofList ((partsAt members "aliases".toList).map fun e => (e.1, textOf e.2))
  namespaces := (namespacesOf base members).1
  appNamespace := .ofText ((members.lookup "app_namespace".toList).elim "App\\".toList textOf)
  anonymousPaths := (itemsAt members "anonymous_paths".toList).map (anonymousPathOf base)
  anonymousNamespaces :=
    .ofList ((partsAt members "anonymous_namespaces".toList).map fun e => (e.1, textOf e.2))
  classes := .ofList ((partsAt members "classes".toList).map fun e => (e.1, textsOf e.2))
  viewPaths :=
    (textsAt members "view_paths".toList ++ textsAt members "paths".toList).map (located base)
  viewHints :=
    (partsAt members "view_hints".toList).foldl (addHint base) (namespacesOf base members).2

/-- **Loading.** A configuration is checked and then read. -/
theorem ofMembers_eq_checked (base : Option Path) (members : List (Text × Data)) :
    ofMembers base members = checked (checks members) (reading base members) := by
  unfold ofMembers checks layout
  simp only [List.flatMap_cons, List.flatMap_nil]
  rw [readNamespaces_eq]
  refine checked_bind ?_
  rw [readHints_eq]
  refine checked_bind ?_
  rw [readAnonymousPaths_eq]
  refine checked_bind ?_
  rw [readAppNamespace_eq]
  refine checked_bind ?_
  rw [stringsAt_eq]
  refine checked_bind ?_
  rw [stringsAt_eq]
  refine checked_bind ?_
  rw [tableAt_eq string_eq]
  refine checked_bind ?_
  rw [tableAt_eq string_eq]
  refine checked_bind ?_
  rw [tableAt_eq strings_eq]
  exact checked_bind rfl

/-! ## Well-shaped members -/

/-- The data of an anonymous path: a string, or an object with a string for its path and with no
label, null or a string for its label. -/
def IsAnonymousPath (value : Data) : Prop :=
  (∃ text, value = .text text) ∨
    ∃ inner, value = .object inner ∧ (∃ text, inner.lookup "path".toList = some (.text text)) ∧
      (inner.lookup "prefix".toList = none ∨ inner.lookup "prefix".toList = some .null ∨
        ∃ text, inner.lookup "prefix".toList = some (.text text))

def Member.Accepts : Member → Data → Prop
  | objectOf part, value =>
    value = .list [] ∨ ∃ inner, value = .object inner ∧ ∀ e ∈ inner, part.Accepts e.2
  | anonymousPaths, value => ∃ items, value = .list items ∧ ∀ item ∈ items, IsAnonymousPath item
  | plain shape, value => shape.Accepts value

/-- Every member is missing or what it may be. -/
def WellShaped (members : List (Text × Data)) : Prop :=
  ∀ m ∈ layout, ∀ value ∈ members.lookup m.1, m.2.Accepts value

theorem label?_iff {inner : List (Text × Data)} :
    (∀ label ∈ label? (.object inner), ∃ text, label = .text text) ↔
      inner.lookup "prefix".toList = none ∨ inner.lookup "prefix".toList = some .null ∨
        ∃ text, inner.lookup "prefix".toList = some (.text text) := by
  rw [label?]
  generalize inner.lookup "prefix".toList = found
  cases found with
  | none => simp
  | some label => cases label <;> simp

theorem pathChecks_iff {value : Data} :
    (∀ c ∈ pathChecks key value, c.passes = true) ↔ IsAnonymousPath value := by
  have hlabel : (∀ c ∈ pathChecks key value, c.passes = true) ↔
      Shape.path.Accepts value ∧ ∀ label ∈ label? value, ∃ text, label = .text text := by
    rw [pathChecks, List.forall_mem_cons, List.forall_mem_map, ← Shape.accepts_iff]
    refine and_congr_right fun _ => forall_congr' fun label => ?_
    rw [Option.mem_toList]
    exact imp_congr_right fun _ => Data.isText_iff
  rw [hlabel]
  cases value with
  | object inner =>
    rw [label?_iff]
    simp [Shape.Accepts, IsAnonymousPath]
  | _ => simp [Shape.Accepts, IsAnonymousPath, label?]

theorem Member.accepts_iff {m : Member} {value : Data} :
    (∀ c ∈ m.checks key value, c.passes = true) ↔ m.Accepts value := by
  cases m with
  | objectOf part =>
    rw [checks, List.forall_mem_cons, List.forall_mem_map]
    cases value <;> simp [Check.passes, Shape.accepts_iff, Accepts, Shape.Accepts, parts]
  | anonymousPaths =>
    rw [checks, List.forall_mem_cons]
    cases value with
    | list entries =>
      have hzip : (∀ item ∈ entries.zipIdx, IsAnonymousPath item.1) ↔
          ∀ item ∈ entries, IsAnonymousPath item := by
        rw [← List.forall_mem_map (f := Prod.fst), List.zipIdx_map_fst]
      simp only [items, List.forall_mem_flatMap, pathChecks_iff, hzip]
      simp [Check.passes, Shape.accepts, Accepts]
    | _ => simp [Check.passes, Shape.accepts, Accepts]
  | plain shape => simp [checks, Check.passes, Shape.accepts_iff, Accepts]

theorem wellShaped_iff : WellShaped members ↔ ∀ c ∈ checks members, c.passes = true := by
  simp only [WellShaped, checks, checksAt, List.forall_mem_flatMap, Option.mem_toList,
    Member.accepts_iff, Option.mem_def]

section Congr

variable {others : List (Text × Data)}
  (h : ∀ m ∈ layout, others.lookup m.1 = members.lookup m.1)

include h

theorem checks_congr : checks others = checks members := by
  unfold checks checksAt
  refine List.flatMap_congr fun m hm => ?_
  rw [h m hm]

theorem reading_congr (base : Option Path) : reading base others = reading base members := by
  unfold layout at h
  simp only [List.forall_mem_cons] at h
  obtain ⟨h₁, h₂, h₃, h₄, h₅, h₆, h₇, h₈, h₉, -⟩ := h
  unfold reading namespacesOf partsAt itemsAt textsAt
  rw [h₁, h₂, h₃, h₄, h₅, h₆, h₇, h₈, h₉]

end Congr

/-- **Shapes.** Data is a configuration if and only if every member is missing or what it may be.
Otherwise the error names the first key, of a member or of a part of it, under which there is
another shape. Members that are not in the layout have no influence. -/
theorem ofData_eq_ok_iff_wellShaped (base : Option Path) (members : List (Text × Data)) :
    ((∃ config, ofData base (.object members) = .ok config) ↔ WellShaped members) ∧
    (∀ e, ofData base (.object members) = .error e ↔
      ∃ before c after, checks members = before ++ c :: after ∧
        (∀ d ∈ before, d.shape.Accepts d.value) ∧ ¬ c.shape.Accepts c.value ∧
          e = .wrongShape c.key c.shape) ∧
    (∀ others : List (Text × Data), (∀ m ∈ layout, others.lookup m.1 = members.lookup m.1) →
      ofData base (.object others) = ofData base (.object members)) := by
  have hload : ∀ members, ofData base (.object members) =
      checked (checks members) (reading base members) := ofMembers_eq_checked base
  refine ⟨?_, fun e => ?_, fun others h => ?_⟩
  · rw [hload, exists_checked_eq_ok_iff, wellShaped_iff]
  · simp only [hload, checked_eq_error_iff, Check.passes, Shape.accepts_iff, Check.error,
      ← Bool.not_eq_true]
  · rw [hload, hload, checks_congr h, reading_congr h]

/-- Members with a number among the namespaces, and behind it a member of another shape. -/
def numberedMembers : List (Text × Data) :=
  [("paths".toList, .null),
    ("namespaces".toList, .object [("mail".toList, .list []), ("ui".toList, .number ['1'])])]

/-- Members whose second anonymous path has a number for its label. -/
def labelledMembers : List (Text × Data) :=
  [("paths".toList, .null),
    ("anonymous_paths".toList, .list [.text ['a'],
      .object [("path".toList, .text ['b']), ("prefix".toList, .number ['1'])]])]

/-- The part among the namespaces is named although it comes last, with a member that is not in the
layout and without one. The label is named with the place of its path in the list. -/
theorem ofData_numberedMembers :
    (∀ m ∈ layout, (("theme".toList, .null) :: numberedMembers).lookup m.1 =
      numberedMembers.lookup m.1) ∧
    ¬ WellShaped numberedMembers ∧
    ofData none (.object (("theme".toList, .null) :: numberedMembers)) =
      .error (.wrongShape "namespaces.ui".toList .strings) ∧
    ¬ WellShaped labelledMembers ∧
    ofData none (.object labelledMembers) =
      .error (.wrongShape "anonymous_paths[1].prefix".toList .string) := by
  have herror : ofData none (.object numberedMembers) =
      .error (.wrongShape "namespaces.ui".toList .strings) := rfl
  have hlabel : ofData none (.object labelledMembers) =
      .error (.wrongShape "anonymous_paths[1].prefix".toList .string) := rfl
  have hlayout : ∀ m ∈ layout, (("theme".toList, .null) :: numberedMembers).lookup m.1 =
      numberedMembers.lookup m.1 := by
    have htheme : ∀ m ∈ layout, (m.1 == "theme".toList) = false := by decide
    intro m hm
    rw [List.lookup_cons, htheme m hm]
  obtain ⟨hok, -, hothers⟩ := ofData_eq_ok_iff_wellShaped none numberedMembers
  refine ⟨hlayout, ?_, (hothers _ hlayout).trans herror, ?_, hlabel⟩
  · rw [← hok, herror]
    rintro ⟨config, ⟨⟩⟩
  · rw [← (ofData_eq_ok_iff_wellShaped none labelledMembers).1, hlabel]
    rintro ⟨config, ⟨⟩⟩

end Config

end ComponentTags
