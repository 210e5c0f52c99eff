import ComponentTags.Component.Resolve
import ComponentTags.Proofs.ClassNames
import ComponentTags.Proofs.Replacing

/-!
# What a tag stands for is the first candidate that exists

The strategies look for classes and views in ways of their own, and a view that cannot be looked
up costs one of them a candidate and another one a whole path. Still there is one list of
candidates (`Resolver.candidates`), and a tag that is no alias stands for the first of them that
exists (`Resolver.firstHit`, `Resolver.resolve_eq_firstHit`), provided that the finder refuses the
two names of a view alike (`Views.RefusesAlike`).

1. Texts are cut at the first hint mark: `between_pieces_literal`, `afterFirst_append`. The names of
   classes and views are written down with that (`Name.spelled`, `Name.viewUnder`).
2. A strategy finds the first of its own candidates that exists (`Resolver.outcome_apply`).
3. So does a list of strategies (`Resolver.outcome_resolveBy`).
-/

namespace ComponentTags

open Text

namespace Text

variable {mark t rest : Text}

/-! ## Cutting a text at a mark -/

/-- What stands before the leftmost occurrence of `mark`; all of the text without one. -/
def beforeFirst (mark text : Text) : Text :=
  text.take ((indexOf? mark text).getD text.length)

theorem occursIn_eq_isSome (mark t : Text) : occursIn mark t = (indexOf? mark t).isSome := by
  rw [Bool.eq_iff_iff, occursIn_iff_infix, Option.isSome_iff_ne_none, ne_eq, indexOf?_eq_none_iff,
    not_not]

theorem indexOf?_append (mark rest : Text) : indexOf? mark (mark ++ rest) = some 0 := by
  cases mark with
  | nil => cases rest <;> simp [indexOf?]
  | cons a mark => simp [indexOf?]

theorem afterFirst_append (hm : mark ≠ []) : afterFirst mark (mark ++ rest) = rest := by
  simp [afterFirst, indexOf?_append, hm]

theorem afterFirst_of_not_infix (h : ¬ mark <:+: t) : afterFirst mark t = t := by
  simp [afterFirst, indexOf?_eq_none_iff.2 h]

/-- The first text between the occurrences of a mark ends at the leftmost of them, and the others
follow behind it. -/
theorem between_pieces_literal (hm : mark ≠ []) (c : Cursor) :
    Piece.between (c.pieces (literal mark)) =
      match indexOf? mark c.rest with
      | some n =>
        c.rest.take n :: Piece.between ((c.advance (n + mark.length)).pieces (literal mark))
      | none => [c.rest] := by
  obtain ⟨rest, hrest⟩ : ∃ rest, c.rest = rest := ⟨_, rfl⟩
  induction rest generalizing c with
  | nil =>
    rw [Cursor.pieces_nil hrest, hrest]
    simp [indexOf?, hm, Piece.between]
  | cons a rest ih =>
    by_cases hp : mark <+: a :: rest
    · obtain ⟨v, hv⟩ := hp
      have hr : c.rest = mark ++ v := by rw [hrest, hv]
      have hhit : literal mark c = some ((), mark.length) := by simp [literal, hr]
      rw [Cursor.pieces_append_of_hit hr hm hhit, hr, indexOf?_append]
      simp [Piece.between]
    · have hnone : literal mark c = none := by simp [literal, hrest, hp]
      have hnext : c.next.rest = rest := by simp [Cursor.rest_next, hrest]
      have hi : indexOf? mark (a :: rest) = (indexOf? mark rest).map (· + 1) := by
        simp [indexOf?, hp]
      rw [Cursor.pieces_plain hrest hnone, Piece.between, ih c.next hnext, hrest, hi, hnext]
      cases indexOf? mark rest with
      | none => rfl
      | some n =>
        simp only [Option.map_some, List.take_succ_cons, List.cons.injEq, true_and]
        rw [Nat.add_right_comm, Cursor.advance]

theorem exists_between_pieces_literal (hm : mark ≠ []) (c : Cursor) :
    ∃ texts, Piece.between (c.pieces (literal mark)) = beforeFirst mark c.rest :: texts := by
  rw [between_pieces_literal hm, beforeFirst]
  cases indexOf? mark c.rest with
  | some n => exact ⟨_, rfl⟩
  | none => exact ⟨[], by simp⟩

end Text

/-! ## Candidates -/

namespace Name

/-- The view of a name in a directory: the directory and a dot before the name, or behind the first
hint mark of the name. -/
def viewUnder (directory name : Text) : Text :=
  let dotted := if directory.getLast? = some '.' then directory else directory ++ ['.']
  match indexOf? hintMark name with
  | none => dotted ++ name
  | some n => name.take n ++ hintMark ++ dotted ++ name.drop (n + 2)

theorem viewIn_eq_viewUnder (directory name : Text) :
    viewIn directory name = viewUnder directory name := by
  have hdotted : (['.'].isSuffixOf directory = true) = (directory.getLast? = some '.') := by
    rw [List.isSuffixOf_iff_suffix, List.getLast?_eq_some_iff]
    exact propext ⟨fun ⟨u, hu⟩ => ⟨u, hu.symm⟩, fun ⟨u, hu⟩ => ⟨u, hu.symm⟩⟩
  unfold viewIn viewUnder
  simp only [hdotted]
  rw [occursIn_eq_isSome, replaceFirst]
  cases indexOf? hintMark name with
  | none => rfl
  | some n =>
    rw [Option.isSome_some, if_pos rfl]
    simp only [List.append_assoc]
    rfl

end Name

/-- The text whose digest is the hint of the directory. -/
def AnonymousPath.hashed (e : AnonymousPath) : Text :=
  match e.label with
  | some (c :: cs) => c :: cs
  | _ => e.path

theorem AnonymousPath.hash_eq (e : AnonymousPath) : e.hash = Digest.ofText e.hashed := by
  rcases hl : e.label with _ | _ | ⟨c, cs⟩ <;> simp only [hash, hashed, hl]

namespace Resolver

/-- Whether a view exists; one that cannot be looked up does not. -/
def findsView (r : Resolver) (view : Text) : Bool :=
  match r.views view with
  | .ok found => found
  | .error _ => false

/-- Whether a candidate exists. A view for mails is left to the runtime. -/
def finds (r : Resolver) (target : Target) : Bool :=
  match target.kind with
  | .classBacked => r.classes.declared target.name
  | .view => r.findsView target.name
  | .mail => true

/-- The class that `hint::name` names in the namespace of its hint, if that is one. A second hint
mark ends the name. -/
def hintedClasses (r : Resolver) (tag : Text) : List Text :=
  match indexOf? Name.hintMark tag with
  | none => []
  | some n =>
    match r.config.namespaces.get? (tag.take n) with
    | none => []
    | some space =>
      [space ++ ['\\'] ++ Name.spelled .piece (beforeFirst Name.hintMark (tag.drop (n + 2)))]

/-- The views that a tag names in directories: all of the tag in `components`, and what follows
the hint in the directory of each anonymous namespace whose hint begins the tag. -/
def directoryViews (r : Resolver) (tag : Text) : List Text :=
  Name.viewUnder "components".toList tag ::
    r.config.anonymousNamespaces.entries.flatMap fun e =>
      match (e.1 ++ Name.hintMark).isPrefixOf? tag with
      | some rest => [Name.viewUnder e.2 rest]
      | none => []

/-- The views that a tag names in anonymous paths: all of a tag without a hint mark, and what
follows the first hint mark if the tag begins with the label of the path and a hint mark. -/
def pathViews (r : Resolver) (tag : Text) : List Text :=
  r.config.anonymousPaths.flatMap fun path =>
    match indexOf? Name.hintMark tag with
    | none => [Digest.ofText path.hashed ++ Name.hintMark ++ tag]
    | some n =>
      if (path.label.getD [] ++ Name.hintMark).isPrefixOf tag then
        [Digest.ofText path.hashed ++ Name.hintMark ++ tag.drop (n + 2)]
      else []

/-- Everything that a tag other than an alias may stand for, the first choice first. -/
def candidates (r : Resolver) (tag : Text) : List Target :=
  (r.hintedClasses tag).map (Target.mk .classBacked · tag) ++
    [⟨.classBacked,
      r.config.appNamespace.text ++ "View\\Components\\".toList ++ Name.spelled .piece tag, tag⟩] ++
    (r.directoryViews tag ++ r.pathViews tag).flatMap (fun view =>
      [⟨.view, view, tag⟩, ⟨.view, view ++ ".index".toList, tag⟩]) ++
    if "mail::".toList.isPrefixOf tag then [⟨.mail, tag, tag⟩] else []

/-- The first candidate that exists. An alias has two candidates, the class and the view of its
name, and no others. -/
def firstHit (r : Resolver) (tag : Text) : Except CompileError Target :=
  match r.config.aliases.get? tag with
  | some name =>
    match [Target.mk .classBacked name tag, Target.mk .view name tag].find? r.finds with
    | some target => .ok target
    | none => .error (.unresolvedAlias tag name)
  | none =>
    match (r.candidates tag).find? r.finds with
    | some target => .ok target
    | none => .error (.unresolvedTag tag)

def candidatesBy (r : Resolver) (tag : Text) : Strategy → List Target
  | .aliased => []
  | .namespacedClass => (r.hintedClasses tag).map (Target.mk .classBacked · tag)
  | .defaultClass => [⟨.classBacked, r.defaultClassName tag, tag⟩]
  | .anonymousNamespace =>
    ((r.directoryViews tag).flatMap viewSpellings).map (Target.mk .view · tag)
  | .anonymousPath => ((r.pathViews tag).flatMap viewSpellings).map (Target.mk .view · tag)
  | .mailView => if Directive.mailMark.isPrefixOf tag then [⟨.mail, tag, tag⟩] else []

variable (r : Resolver) (tag : Text)

theorem candidates_eq : r.candidates tag = Strategy.default.flatMap (r.candidatesBy tag) := by
  simp only [candidates, Strategy.default, candidatesBy, defaultClassName,
    Name.className_eq_spelled, List.flatMap_cons, List.flatMap_nil, List.flatMap_append,
    List.map_flatMap, List.append_assoc, List.nil_append, List.append_nil]
  rfl

end Resolver

/-- A finder refuses a view under both its names or under none. -/
def Views.RefusesAlike (views : Views) : Prop :=
  ∀ view, (∃ e, views (view ++ ".index".toList) = .error e) ↔ ∃ e, views view = .error e

/-! ## One strategy -/

theorem Traced.outcome_firstSome {α β : Type} {f : α → Traced (Option β)} {g : α → Option β}
    (h : ∀ a, (f a).outcome = .ok (g a)) (l : List α) :
    (firstSome f l).outcome = .ok (l.findSome? g) := by
  induction l with
  | nil => rfl
  | cons a l ih =>
    rw [firstSome, outcome_bind, h, List.findSome?_cons]
    cases g a with
    | none => exact ih
    | some b => rfl

namespace Resolver

variable (r : Resolver) (tag : Text)

theorem outcome_hasView (view : Text) : (r.hasView view).outcome = .ok (r.findsView view) := by
  unfold hasView findsView
  cases r.views view <;> rfl

theorem outcome_firstView (views : List Text) :
    (r.firstView views).outcome = .ok (views.find? r.findsView) := by
  rw [← List.findSome?_guard]
  refine Traced.outcome_firstSome (fun view => ?_) views
  rw [Traced.outcome_bind, r.outcome_hasView]
  cases h : r.findsView view <;> simp [Except.bind, h, Option.guard]

theorem find?_finds_view (views : List Text) :
    (views.map (Target.mk .view · tag)).find? r.finds =
      (views.find? r.findsView).map (Target.mk .view · tag) :=
  List.find?_map

theorem namespacedClassName?_eq :
    r.namespacedClassName? tag = (r.hintedClasses tag).find? r.classes.declared := by
  have hm : Name.hintMark ≠ [] := by decide
  unfold namespacedClassName? hintedClasses splitBy
  rw [between_pieces_literal hm]
  cases hi : indexOf? Name.hintMark (Cursor.start tag).rest with
  | none =>
    have hi' : indexOf? Name.hintMark tag = none := hi
    simp [hi']
  | some n =>
    have hi' : indexOf? Name.hintMark tag = some n := hi
    obtain ⟨texts, htexts⟩ : ∃ texts, Piece.between
        (((Cursor.start tag).advance (n + Name.hintMark.length)).pieces (literal Name.hintMark)) =
          beforeFirst Name.hintMark (tag.drop (n + 2)) :: texts := by
      have h := exists_between_pieces_literal hm
        ((Cursor.start tag).advance (n + Name.hintMark.length))
      rwa [Cursor.rest_advance] at h
    have htake : (Cursor.start tag).rest.take n = tag.take n := rfl
    simp only [htexts, hi', htake]
    cases r.config.namespaces.get? (tag.take n) with
    | none => rfl
    | some space =>
      simp only [List.find?_cons, List.find?_nil, Name.className_eq_spelled]
      cases r.classes.declared (space ++ ['\\'] ++
        Name.spelled .piece (beforeFirst Name.hintMark (tag.drop (n + 2)))) <;> rfl

theorem namespaceViews_eq :
    r.namespaceViews tag = (r.directoryViews tag).flatMap viewSpellings := by
  have hself : afterFirst (tag ++ Name.hintMark) tag = tag := by
    refine afterFirst_of_not_infix fun h => ?_
    have hl := h.length_le
    have hpos : 0 < Name.hintMark.length := by decide
    rw [List.length_append] at hl
    omega
  have hmark : ∀ hint : Text, hint ++ Name.hintMark ≠ [] := by simp [Name.hintMark]
  unfold namespaceViews directoryViews
  simp only [List.flatMap_cons, hself, List.flatMap_assoc, Name.viewIn_eq_viewUnder]
  congr 1
  induction r.config.anonymousNamespaces.entries with
  | nil => rfl
  | cons e entries ih =>
    rw [List.flatMap_cons, ← ih]
    cases hp : (e.1 ++ Name.hintMark).isPrefixOf? tag with
    | some rest =>
      have ht := List.isPrefixOf?_eq_some_iff_append_eq.1 hp
      have hbegins : (e.1 ++ Name.hintMark).isPrefixOf tag = true :=
        List.isPrefixOf_iff_prefix.2 ⟨rest, ht⟩
      have hafter : afterFirst (e.1 ++ Name.hintMark) tag = rest := by
        rw [← ht, afterFirst_append (hmark e.1)]
      simp [hbegins, hafter]
    | none =>
      have hbegins : (e.1 ++ Name.hintMark).isPrefixOf tag = false := by
        rw [Bool.eq_false_iff]
        intro h
        obtain ⟨rest, ht⟩ := List.isPrefixOf_iff_prefix.1 h
        rw [List.isPrefixOf?_eq_some_iff_append_eq.2 ht] at hp
        simp at hp
      simp [hbegins]

/-- What a tag is called in an anonymous path depends on its first hint mark. -/
theorem nameInPath?_eq (path : AnonymousPath) :
    nameInPath? path tag =
      match indexOf? Name.hintMark tag with
      | none => some tag
      | some n =>
        if (path.label.getD [] ++ Name.hintMark).isPrefixOf tag then some (tag.drop (n + 2))
        else none := by
  unfold nameInPath?
  cases hi : indexOf? Name.hintMark tag with
  | none =>
    have hno := indexOf?_eq_none_iff.1 hi
    have hbegins : ¬ (path.label.getD [] ++ Name.hintMark) <+: tag := fun h =>
      hno ((List.suffix_append _ _).isInfix.trans h.isInfix)
    simp [hbegins, occursIn_eq_isSome, hi]
  | some n =>
    have hafter : afterFirst Name.hintMark tag = tag.drop (n + 2) := by
      simp only [afterFirst, hi]
      rfl
    simp [occursIn_eq_isSome, hi, hafter]

section Refusing

variable {r} (hviews : r.views.RefusesAlike)

include hviews

/-- In a path a view that cannot be looked up counts as one that does not exist: its other name
cannot be looked up either. -/
theorem firstExisting_viewSpellings (view : Text) :
    (firstExisting r.views (viewSpellings view)).1.toOption.join =
      (viewSpellings view).find? r.findsView := by
  have hrefuses := hviews view
  simp only [viewSpellings, firstExisting, List.find?_cons, List.find?_nil, findsView]
  cases hv : r.views view with
  | error e =>
    obtain ⟨e', he'⟩ := hrefuses.2 ⟨e, hv⟩
    simp only [he']
    rfl
  | ok found =>
    cases found with
    | true => rfl
    | false =>
      cases hi : r.views (view ++ ".index".toList) with
      | error e =>
        obtain ⟨e', he'⟩ := hrefuses.1 ⟨e, hi⟩
        rw [hv] at he'
        simp at he'
      | ok found => cases found <;> rfl

theorem outcome_viewInPath (path : AnonymousPath) :
    (r.viewInPath tag path).outcome = .ok ((nameInPath? path tag).bind fun name =>
      (viewSpellings (path.hash ++ Name.hintMark ++ name)).find? r.findsView) := by
  unfold viewInPath
  cases nameInPath? path tag with
  | none => rfl
  | some name =>
    rw [Option.bind_some, ← firstExisting_viewSpellings hviews]
    rcases hf : firstExisting r.views (viewSpellings (path.hash ++ Name.hintMark ++ name)) with
      ⟨found, sought⟩
    simp only [hf]
    cases found with
    | error e => rfl
    | ok found => cases found <;> rfl

theorem outcome_firstSome_viewInPath :
    (Traced.firstSome (r.viewInPath tag) r.config.anonymousPaths).outcome =
      .ok (((r.pathViews tag).flatMap viewSpellings).find? r.findsView) := by
  rw [Traced.outcome_firstSome (outcome_viewInPath tag hviews), pathViews, List.flatMap_assoc,
    List.find?_flatMap]
  congr 2
  funext path
  rw [nameInPath?_eq, AnonymousPath.hash_eq]
  cases indexOf? Name.hintMark tag with
  | none => simp
  | some n =>
    dsimp only
    split <;> simp

/-- **One strategy.** For a tag that is no alias, a strategy finds the first of its candidates that
exists. -/
theorem outcome_apply (halias : r.config.aliases.get? tag = none) (strategy : Strategy) :
    (r.apply tag strategy).outcome = .ok ((r.candidatesBy tag strategy).find? r.finds) := by
  cases strategy with
  | aliased =>
    show (r.byAlias tag).outcome = _
    unfold byAlias
    rw [halias]
    rfl
  | namespacedClass =>
    show Except.ok ((r.namespacedClassName? tag).map _) = _
    rw [namespacedClassName?_eq, candidatesBy, List.find?_map]
    rfl
  | defaultClass =>
    show Except.ok (if r.classes.declared (r.defaultClassName tag) then _ else _) = _
    rw [candidatesBy, List.find?_singleton]
    rfl
  | anonymousNamespace =>
    show (r.firstView (r.namespaceViews tag) >>= fun found =>
      pure (found.map (Target.mk .view · tag))).outcome = _
    rw [Traced.outcome_bind, outcome_firstView, candidatesBy, find?_finds_view, namespaceViews_eq]
    rfl
  | anonymousPath =>
    show (Traced.firstSome (r.viewInPath tag) r.config.anonymousPaths >>= fun found =>
      pure (found.map (Target.mk .view · tag))).outcome = _
    rw [Traced.outcome_bind, outcome_firstSome_viewInPath tag hviews, candidatesBy,
      find?_finds_view]
    rfl
  | mailView =>
    show Except.ok (if Directive.mailMark.isPrefixOf tag then _ else _) = _
    rw [candidatesBy]
    split <;> rfl

/-! ## All strategies -/

/-- **Strategies.** So does a list of strategies, with the candidates of one after the other. -/
theorem outcome_resolveBy (halias : r.config.aliases.get? tag = none)
    (strategies : List Strategy) :
    (r.resolveBy strategies tag).outcome =
      match (strategies.flatMap (r.candidatesBy tag)).find? r.finds with
      | some target => .ok target
      | none => .error (.unresolvedTag tag) := by
  induction strategies with
  | nil => rfl
  | cons strategy strategies ih =>
    rw [resolveBy, Traced.outcome_bind, outcome_apply tag hviews halias, List.flatMap_cons,
      List.find?_append]
    cases (r.candidatesBy tag strategy).find? r.finds with
    | some target => rfl
    | none => exact ih

end Refusing

theorem resolve_of_alias {r : Resolver} {tag name : Text}
    (h : r.config.aliases.get? tag = some name) :
    r.resolve tag =
      if r.classes.declared name then
        ⟨.ok ⟨.classBacked, name, tag⟩, [.resolved ⟨.classBacked, name, tag⟩ .aliased]⟩
      else
        match r.views name with
        | .ok true =>
          ⟨.ok ⟨.view, name, tag⟩, [.sought name, .resolved ⟨.view, name, tag⟩ .aliased]⟩
        | .ok false => ⟨.error (.unresolvedAlias tag name), [.sought name]⟩
        | .error e =>
          ⟨.error (.unresolvedAlias tag name), [.sought name, .lookupFailed name e]⟩ := by
  have hresolve : r.resolve tag = (r.byAlias tag >>= fun found =>
      match found with
      | some target => do
        Traced.log (.resolved target .aliased)
        return target
      | none => r.resolveBy Strategy.default.tail tag) := rfl
  rw [hresolve, byAlias, h]
  dsimp only
  split
  · rfl
  · unfold hasView
    cases r.views name with
    | error e => rfl
    | ok found => cases found <;> rfl

/-- **Resolution.** A tag that is no alias stands for the first of its candidates that exists. An
alias stands for the class or else the view of its name; then no other view is looked up, and
nothing else about the classes, the views or the configuration makes a difference. -/
theorem resolve_eq_firstHit (r : Resolver) (tag : Text) (hviews : r.views.RefusesAlike) :
    (r.resolve tag).outcome = r.firstHit tag ∧
    ∀ name, r.config.aliases.get? tag = some name →
      (∀ view, Event.sought view ∈ (r.resolve tag).events → view = name) ∧
      ∀ r' : Resolver, r'.config.aliases.get? tag = some name →
        r'.classes.declared name = r.classes.declared name → r'.views name = r.views name →
        r'.resolve tag = r.resolve tag := by
  refine ⟨?_, fun name halias => ⟨fun view hview => ?_, fun r' halias' hclass hview => ?_⟩⟩
  · unfold firstHit
    cases halias : r.config.aliases.get? tag with
    | none =>
      rw [candidates_eq]
      exact outcome_resolveBy tag hviews halias Strategy.default
    | some name =>
      rw [resolve_of_alias halias]
      simp only [List.find?_cons, List.find?_nil, finds, findsView]
      cases r.classes.declared name with
      | true => rfl
      | false =>
        cases r.views name with
        | error e => rfl
        | ok found => cases found <;> rfl
  · rw [resolve_of_alias halias] at hview
    split at hview
    · simp at hview
    · split at hview
      all_goals simpa using hview
  · rw [resolve_of_alias halias, resolve_of_alias halias', hclass, hview]

end Resolver

/-! ## The finder of a list of views -/

/-- What has no character of a mark adds no occurrence of it. -/
theorem Text.occurrences_append {mark : Text} {a : Char} {u w : Text} (hm : mark ≠ [])
    (hw : ∀ x ∈ a :: w, x ∉ mark) : occurrences mark (u ++ a :: w) = occurrences mark u := by
  have hcut : ∀ s : Text, mark <+: s ++ a :: w ↔ mark <+: s := fun s =>
    ⟨prefix_of_prefix_append_cons (hw a (by simp)), fun h => h.trans (List.prefix_append _ _)⟩
  -- the two searches go side by side, with the addition behind one of them
  suffices hside : ∀ d c : Cursor, c.rest = d.rest ++ a :: w →
      Piece.items (c.pieces (literal mark)) = Piece.items (d.pieces (literal mark)) from
    congrArg List.length (hside (Cursor.start u) (Cursor.start (u ++ a :: w)) rfl)
  intro d
  induction d using Cursor.pieces_induction (literal mark) with
  | nil d hr =>
    intro c hc
    rw [hr, List.nil_append] at hc
    have hnone : ∀ e : Cursor, e.rest <:+ c.rest → literal mark e = none := by
      intro e he
      rw [hc] at he
      obtain ⟨y, mark', rfl⟩ := List.exists_cons_of_ne_nil hm
      have hp : ¬ y :: mark' <+: e.rest := fun h =>
        hw y (he.subset (h.subset (by simp))) (by simp)
      simp [literal, hp]
    have hitems := Piece.items_plain_append (α := Unit) (a :: w) []
    rw [List.append_nil] at hitems
    rw [Cursor.pieces_eq_map_plain hnone, Cursor.pieces_nil hr, hc, hitems]
  | plain d b rest hr hh ih =>
    intro c hc
    have hp : ¬ mark <+: d.rest := by simpa [literal] using hh
    have hcn : literal mark c = none := by simpa [literal, hc, hcut] using hp
    rw [hr, List.cons_append] at hc
    rw [Cursor.pieces_plain hc hcn, Cursor.pieces_plain hr hh]
    exact ih c.next (by simp [Cursor.rest_next, hc, hr])
  | found d item n hr hh ih =>
    intro c hc
    unfold literal at hh
    split at hh
    · next hp =>
      obtain ⟨v, hv⟩ := List.isPrefixOf_iff_prefix.1 hp
      have hcp : literal mark c = some ((), mark.length) := by simp [literal, hc, ← hv]
      have hdp : literal mark d = some ((), mark.length) := by simp [literal, ← hv]
      obtain ⟨-, rfl⟩ : () = item ∧ mark.length = n := by simpa using hh
      have hpos := List.length_pos_iff.2 hm
      rw [Cursor.pieces_of_hit (by simp [hc]) hcp, Cursor.pieces_of_hit hr hdp, Piece.items,
        Piece.items]
      refine congrArg _ (ih _ ?_)
      simp only [Cursor.rest_advance, Cursor.rest_next, List.drop_drop, hc]
      refine List.drop_append_of_le_length ?_
      rw [← hv, List.length_append]
      omega
    · simp at hh

theorem Views.refusesAlike_ofList (views : List Text) : (Views.ofList views).RefusesAlike := by
  intro view
  have hsame : occurrences Name.hintMark (view ++ ".index".toList) =
      occurrences Name.hintMark view :=
    occurrences_append (by decide) (forall_mem_of_all (by decide))
  have hrefuses : ∀ name, (∃ e, Views.ofList views name = .error e) ↔
      1 < occurrences Name.hintMark name := by
    intro name
    unfold Views.ofList
    split <;> simp_all
  rw [hrefuses, hrefuses, hsame]

/-- A project with two classes and three views: one under an alias, one in the directory for the
tags that begin with `ui`, and one in the anonymous path for those that begin with `pro`, whose hint
is the digest of that label. -/
def kitResolver : Resolver where
  config :=
    { aliases := .ofList [("logo".toList, "brand.logo".toList)]
      namespaces := .ofList [("shop".toList, "Shop\\Tags".toList)]
      anonymousNamespaces := .ofList [("ui".toList, "kit".toList)]
      anonymousPaths := [⟨"pages".toList, some "pro".toList⟩] }
  classes :=
    ⟨fun name => [ "Shop\\Tags\\Forms\\TextInput".toList,
      "App\\View\\Components\\UserCard".toList].contains name, fun _ => []⟩
  views := Views.ofList ["brand.logo".toList, "card::kit.x.index".toList,
    "1f0f70bf2b5ad94c7387e64c16dc455a::wide".toList]

/-- One tag for each way to stand for something. The first view of the fourth one has two hints and
is refused, the next one exists under its other name. -/
theorem resolve_kit :
    kitResolver.views.RefusesAlike ∧
      (kitResolver.resolve "logo".toList).outcome =
        .ok ⟨.view, "brand.logo".toList, "logo".toList⟩ ∧
      (kitResolver.resolve "shop::forms.text-input".toList).outcome =
        .ok ⟨.classBacked, "Shop\\Tags\\Forms\\TextInput".toList,
          "shop::forms.text-input".toList⟩ ∧
      (kitResolver.resolve "user_card".toList).outcome =
        .ok ⟨.classBacked, "App\\View\\Components\\UserCard".toList, "user_card".toList⟩ ∧
      (kitResolver.resolve "ui::card::x".toList).outcome =
        .ok ⟨.view, "card::kit.x.index".toList, "ui::card::x".toList⟩ ∧
      (kitResolver.resolve "pro::wide".toList).outcome =
        .ok ⟨.view, "1f0f70bf2b5ad94c7387e64c16dc455a::wide".toList, "pro::wide".toList⟩ ∧
      (kitResolver.resolve "mail::x".toList).outcome =
        .ok ⟨.mail, "mail::x".toList, "mail::x".toList⟩ := by
  have hviews : kitResolver.views.RefusesAlike := Views.refusesAlike_ofList _
  have h := fun tag => (Resolver.resolve_eq_firstHit kitResolver tag hviews).1
  refine ⟨hviews, ?_, ?_, ?_, ?_, ?_, ?_⟩
  · rw [h]
    rfl
  · rw [h]
    rfl
  · rw [h]
    rfl
  · rw [h]
    rfl
  · rw [h]
    decide +kernel
  · rw [h]
    rfl

end ComponentTags
