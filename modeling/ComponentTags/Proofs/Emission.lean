import ComponentTags.Proofs.Resolution
import ComponentTags.Compile.Standard
import ComponentTags.Echo

/-!
# Directives and what tags stand for

The directive that is due to a target has the name of its class, or its view in apostrophes, or
the expression that finds its view for mails. What is compiled looks at the text of the tag to tell
mails from other views, and so the directive of a tag is the one that is due except where a tag
that begins like a mail stands for another view (`componentDirective_eq_due_iff`).
-/

namespace ComponentTags

open Text

/-! ## Where targets come from -/

/-- A view for mails is the tag itself, and the tag has the hint of mails. -/
def Target.MailIsTag (target : Target) (tag : Text) : Prop :=
  target.kind = .mail → target.name = tag ∧ Directive.mailMark <+: tag

namespace Resolver

variable {r : Resolver} {tag : Text} {target : Target}

theorem of_byAlias (h : (r.byAlias tag).outcome = .ok (some target)) :
    target.kind = .classBacked ∧ r.classes.declared target.name = true ∨ target.kind = .view := by
  unfold byAlias at h
  split at h
  · simp at h
  · next name _ =>
    split at h
    · next hclass =>
      obtain rfl : ⟨.classBacked, name, tag⟩ = target := by simpa using h
      exact .inl ⟨rfl, hclass⟩
    · rw [Traced.outcome_bind, outcome_hasView] at h
      cases hv : r.findsView name with
      | false => simp [hv, Except.bind, Traced.fail] at h
      | true =>
        obtain rfl : ⟨.view, name, tag⟩ = target := by simpa [hv, Except.bind] using h
        exact .inr rfl

/-- A view that was found, if any, makes a target that is a view. -/
theorem kind_of_found {x : Traced (Option Text)}
    (h : (x >>= fun found => pure (found.map (Target.mk .view · tag))).outcome =
      .ok (some target)) : target.kind = .view := by
  rw [Traced.outcome_bind] at h
  cases hx : x.outcome with
  | error e => simp [hx, Except.bind] at h
  | ok found =>
    cases found with
    | none => simp [hx, Except.bind] at h
    | some view =>
      obtain rfl : ⟨.view, view, tag⟩ = target := by simpa [hx, Except.bind] using h
      rfl

/-- **One strategy.** It finds a class that exists, a view, or the tag itself as one for mails. -/
theorem of_apply {strategy : Strategy} (h : (r.apply tag strategy).outcome = .ok (some target)) :
    target.kind = .classBacked ∧ r.classes.declared target.name = true ∨ target.kind = .view ∨
      target.kind = .mail ∧ target.name = tag ∧ Directive.mailMark <+: tag := by
  cases strategy with
  | aliased => exact (of_byAlias h).imp_right .inl
  | namespacedClass =>
    have hmap : (r.namespacedClassName? tag).map (Target.mk .classBacked · tag) = some target :=
      Except.ok.inj h
    obtain ⟨name, hname, rfl⟩ := Option.map_eq_some_iff.1 hmap
    rw [namespacedClassName?_eq] at hname
    exact .inl ⟨rfl, List.find?_some hname⟩
  | defaultClass =>
    have hif : (if r.classes.declared (r.defaultClassName tag) then
        some (Target.mk .classBacked (r.defaultClassName tag) tag) else none) = some target :=
      Except.ok.inj h
    obtain ⟨hclass, rfl⟩ := by simpa using hif
    exact .inl ⟨rfl, hclass⟩
  | anonymousNamespace => exact .inr (.inl (kind_of_found h))
  | anonymousPath => exact .inr (.inl (kind_of_found h))
  | mailView =>
    have hif : (if Directive.mailMark.isPrefixOf tag then some (Target.mk .mail tag tag)
        else none) = some target := Except.ok.inj h
    split at hif
    · next hm =>
      obtain rfl := Option.some.inj hif
      exact .inr (.inr ⟨rfl, rfl, List.isPrefixOf_iff_prefix.1 hm⟩)
    · simp at hif

/-- **All strategies.** What a tag stands for was found by one of them. -/
theorem exists_apply_of_resolveBy {strategies : List Strategy}
    (h : (r.resolveBy strategies tag).outcome = .ok target) :
    ∃ strategy ∈ strategies, (r.apply tag strategy).outcome = .ok (some target) := by
  induction strategies with
  | nil => simp [resolveBy, Traced.fail] at h
  | cons strategy strategies ih =>
    rw [resolveBy, Traced.outcome_bind] at h
    cases ha : (r.apply tag strategy).outcome with
    | error e => simp [ha, Except.bind] at h
    | ok found =>
      rw [ha] at h
      cases found with
      | none =>
        obtain ⟨strategy', hs, ha'⟩ := ih h
        exact ⟨strategy', List.mem_cons_of_mem strategy hs, ha'⟩
      | some other =>
        obtain rfl : other = target := Except.ok.inj h
        exact ⟨strategy, List.mem_cons_self, ha⟩

theorem mailIsTag_of_resolveBy {strategies : List Strategy}
    (h : (r.resolveBy strategies tag).outcome = .ok target) : target.MailIsTag tag := by
  intro hmail
  obtain ⟨strategy, -, ha⟩ := exists_apply_of_resolveBy h
  rcases of_apply ha with ⟨hk, -⟩ | hk | ⟨-, hm⟩
  · simp [hmail] at hk
  · simp [hmail] at hk
  · exact hm

theorem declared_of_resolveBy {strategies : List Strategy}
    (h : (r.resolveBy strategies tag).outcome = .ok target) (hclass : target.kind = .classBacked) :
    r.classes.declared target.name = true := by
  obtain ⟨strategy, -, ha⟩ := exists_apply_of_resolveBy h
  rcases of_apply ha with ⟨-, hd⟩ | hk | ⟨hk, -⟩
  · exact hd
  · simp [hclass] at hk
  · simp [hclass] at hk

end Resolver

/-! ## The directive that is due -/

/-- The entries of an array, each as `'name' => value`, with commas between them. -/
def arrayText : List (Text × Text) → Text
  | [] => []
  | [(name, value)] => "'".toList ++ name ++ "' => ".toList ++ value
  | (name, value) :: entry :: entries =>
    "'".toList ++ name ++ "' => ".toList ++ value ++ ",".toList ++ arrayText (entry :: entries)

theorem plainEntries_eq_arrayText (values : Table Text) :
    plainEntries values = arrayText values.entries := by
  have hentry : plainEntries values =
      joinWith [','] (values.entries.map fun entry => arrayEntry entry.1 entry.2) := rfl
  rw [hentry]
  induction values.entries with
  | nil => rfl
  | cons entry entries ih =>
    rw [List.map_cons, joinWith_cons]
    cases entries with
    | nil => simp [arrayText, arrayEntry]
    | cons entry' entries =>
      rw [arrayText, ← ih, List.map_cons, joinWith_cons]
      simp [arrayEntry]

theorem entries_pair {k k' : Text} (h : k ≠ k') (v v' : Text) :
    (Table.ofList [(k, v), (k', v')]).entries = [(k, v), (k', v')] := by
  simp [Table.ofList, Table.putAll, Table.put, Table.empty, Entries.put, h]

/-- The directive for a component without a class, whose view is given by an expression. -/
def Directive.anonymous (view : Text) (attributes : Attributes) : Text :=
  "<?php Illuminate\\View\\AnonymousComponent::resolve(['view' => ".toList ++ view ++
    ",'data' => [".toList ++ arrayText attributes.values.entries ++ "]]); ?>".toList

/-- The directive that is due to a target by its kind and its name. -/
def Target.due (classes : Classes) (attributes : Attributes) (target : Target) : Text :=
  match target.kind with
  | .classBacked => "<?php ".toList ++ target.name ++ "::resolve([".toList ++
      arrayText (Compiler.classParameters classes target.name attributes).entries ++ "]); ?>".toList
  | .view => Directive.anonymous ("'".toList ++ target.name ++ "'".toList) attributes
  | .mail => Directive.anonymous
      ("$__env->getContainer()->make(Illuminate\\View\\Factory::class)->make('".toList ++
        target.name ++ "')".toList) attributes

namespace Compiler

variable {classes : Classes} {tag : Text} {target : Target} {attributes : Attributes}

theorem directiveFor_of_class (h : target.kind = .classBacked) :
    directiveFor classes tag target attributes = "<?php ".toList ++ target.name ++
      "::resolve([".toList ++ arrayText (classParameters classes target.name attributes).entries ++
      "]); ?>".toList := by
  have hc : target.isClass = true := by simp [Target.isClass, h]
  unfold directiveFor Directive.component
  rw [if_pos hc, plainEntries_eq_arrayText]

theorem component_anonymous (view : Text) (attributes : Attributes) :
    Directive.component Directive.anonymousComponent (arrayText [("view".toList, view),
      ("data".toList, arrayOf (arrayText attributes.values.entries))]) =
        Directive.anonymous view attributes := by
  have hbegin : "<?php ".toList ++ (Directive.anonymousComponent ++ ("::resolve([".toList ++
      ("'".toList ++ ("view".toList ++ "' => ".toList)))) =
        "<?php Illuminate\\View\\AnonymousComponent::resolve(['view' => ".toList := by decide
  have hmiddle : ",".toList ++ ("'".toList ++ ("data".toList ++ ("' => ".toList ++ ['[']))) =
      ",'data' => [".toList := by decide
  have hend : [']'] ++ "]); ?>".toList = "]]); ?>".toList := by decide
  unfold Directive.component Directive.anonymous
  generalize arrayText attributes.values.entries = data
  rw [← hbegin, ← hmiddle, ← hend, arrayOf, arrayText, arrayText]
  simp only [List.append_assoc]

/-- Only the text of the tag decides on the form of the view. -/
theorem directiveFor_of_not_class (h : target.kind ≠ .classBacked) :
    directiveFor classes tag target attributes =
      Directive.anonymous (if Directive.mailMark.isPrefixOf tag then Directive.mailExpression tag
        else "'".toList ++ target.name ++ "'".toList) attributes := by
  have hc : ¬ target.isClass = true := by simpa [Target.isClass] using h
  have hne : "view".toList ≠ "data".toList := by decide
  unfold directiveFor anonymousParameters
  rw [if_neg hc, plainEntries_eq_arrayText (Table.ofList _), entries_pair hne,
    plainEntries_eq_arrayText, ← component_anonymous]
  rfl

/-- The two forms of a view differ in their first character. -/
theorem anonymous_mail_ne (mail view : Text) :
    Directive.anonymous (Directive.mailExpression mail) attributes ≠
      Directive.anonymous ("'".toList ++ view ++ "'".toList) attributes := by
  intro h
  unfold Directive.anonymous at h
  simp only [List.append_assoc, List.append_cancel_left_eq] at h
  obtain ⟨rest, hrest⟩ : ∃ rest, Directive.mailExpression mail = '$' :: rest := ⟨_, rfl⟩
  rw [hrest] at h
  exact absurd (List.cons.inj h).1 (by decide)

/-- For what a tag stands for, the directive is the one that is due unless the tag
begins like a mail and the target is another view. -/
theorem directiveFor_eq_due_iff (h : target.MailIsTag tag) :
    directiveFor classes tag target attributes = target.due classes attributes ↔
      ¬ (target.kind = .view ∧ Directive.mailMark <+: tag) := by
  cases hk : target.kind with
  | classBacked =>
    unfold Target.due
    rw [hk]
    exact iff_of_true (directiveFor_of_class hk) (by simp)
  | mail =>
    obtain ⟨hname, hmark⟩ := h hk
    unfold Target.due
    rw [directiveFor_of_not_class (by simp [hk]), if_pos (List.isPrefixOf_iff_prefix.2 hmark), hk,
      hname]
    exact iff_of_true rfl (by simp)
  | view =>
    unfold Target.due
    rw [directiveFor_of_not_class (by simp [hk]), hk]
    by_cases hm : Directive.mailMark <+: tag
    · rw [if_pos (List.isPrefixOf_iff_prefix.2 hm)]
      exact iff_of_false (anonymous_mail_ne tag target.name) (by simp [hm])
    · rw [if_neg (fun h => hm (List.isPrefixOf_iff_prefix.1 h))]
      exact iff_of_true rfl (by simp [hm])

theorem outcome_componentDirective {t : Compiler}
    (h : (t.resolver.resolve tag).outcome = .ok target) :
    (t.componentDirective tag attributes).outcome =
      .ok (directiveFor t.resolver.classes tag target attributes) := by
  rw [componentDirective, Traced.outcome_bind, h]
  rfl

/-- **Directives and targets.** When a tag stands for something, its directive is the one that is
due to it, but for a tag that begins like a mail and stands for another view: its directive is the
one that is due to a mail of the name of the tag. -/
theorem componentDirective_eq_due_iff (t : Compiler) (tag : Text) (attributes : Attributes)
    (target : Target) (h : (t.resolver.resolve tag).outcome = .ok target) :
    ((t.componentDirective tag attributes).outcome =
        .ok (target.due t.resolver.classes attributes) ↔
      ¬ (target.kind = .view ∧ Directive.mailMark <+: tag)) ∧
    (target.kind = .view → Directive.mailMark <+: tag →
      (t.componentDirective tag attributes).outcome =
        .ok (Target.due t.resolver.classes attributes ⟨.mail, tag, tag⟩)) := by
  have hmail : target.MailIsTag tag := Resolver.mailIsTag_of_resolveBy h
  rw [outcome_componentDirective h]
  refine ⟨?_, fun hk hm => ?_⟩
  · rw [Except.ok.injEq]
    exact directiveFor_eq_due_iff hmail
  · rw [directiveFor_of_not_class (by simp [hk]), if_pos (List.isPrefixOf_iff_prefix.2 hm)]
    rfl

/-- A project with one view, of which one tag with the hint of mails is an alias. -/
def mailCompiler : Compiler where
  resolver :=
    { config := { aliases := .ofList [("mail::button".toList, "emails.button".toList)] }
      classes := ⟨fun _ => false, fun _ => []⟩
      views := Views.ofList ["emails.button".toList] }
  reader := ⟨Echo.compile, false⟩

theorem resolve_mailButton : (mailCompiler.resolver.resolve "mail::button".toList).outcome =
    .ok ⟨.view, "emails.button".toList, "mail::button".toList⟩ := by
  rfl

theorem resolve_mailPanel : (mailCompiler.resolver.resolve "mail::panel".toList).outcome =
    .ok ⟨.mail, "mail::panel".toList, "mail::panel".toList⟩ := by
  rfl

theorem due_mail_empty (classes : Classes) (name tag : Text) :
    Target.due classes Attributes.empty ⟨.mail, name, tag⟩ =
      ("<?php Illuminate\\View\\AnonymousComponent::resolve(['view' => " ++
        "$__env->getContainer()->make(Illuminate\\View\\Factory::class)->make('").toList ++ name ++
        ("')" ++ ",'data' => [" ++ "]]); ?>").toList := by
  have hempty : arrayText Attributes.empty.values.entries = [] := rfl
  unfold Target.due Directive.anonymous
  rw [hempty]
  simp only [String.toList_append, List.append_assoc, List.nil_append]

/-- A tag with the hint of mails finds itself when nothing else is known about it, and also when it
is an alias of a view. -/
theorem componentDirective_mails :
    (mailCompiler.resolver.resolve "mail::panel".toList).outcome =
      .ok ⟨.mail, "mail::panel".toList, "mail::panel".toList⟩ ∧
    (mailCompiler.componentDirective "mail::panel".toList Attributes.empty).outcome =
      .ok ("<?php Illuminate\\View\\AnonymousComponent::resolve(['view' => " ++
        "$__env->getContainer()->make(Illuminate\\View\\Factory::class)->make('" ++
        "mail::panel" ++ "')" ++ ",'data' => [" ++ "]]); ?>").toList ∧
    (mailCompiler.resolver.resolve "mail::button".toList).outcome =
      .ok ⟨.view, "emails.button".toList, "mail::button".toList⟩ ∧
    (mailCompiler.componentDirective "mail::button".toList Attributes.empty).outcome =
      .ok ("<?php Illuminate\\View\\AnonymousComponent::resolve(['view' => " ++
        "$__env->getContainer()->make(Illuminate\\View\\Factory::class)->make('" ++
        "mail::button" ++ "')" ++ ",'data' => [" ++ "]]); ?>").toList := by
  have hpanel := (componentDirective_eq_due_iff mailCompiler _ Attributes.empty _
    resolve_mailPanel).1.2 (by decide)
  have hbutton := (componentDirective_eq_due_iff mailCompiler _ Attributes.empty _
    resolve_mailButton).2 rfl (by decide)
  rw [due_mail_empty] at hpanel hbutton
  simp only [String.toList_append, List.append_assoc] at hpanel hbutton ⊢
  exact ⟨resolve_mailPanel, hpanel, resolve_mailButton, hbutton⟩

/-- The view of that alias is not in the directive. -/
theorem componentDirective_mailButton_ne_due :
    (mailCompiler.resolver.resolve "mail::button".toList).outcome =
      .ok ⟨.view, "emails.button".toList, "mail::button".toList⟩ ∧
    (mailCompiler.componentDirective "mail::button".toList Attributes.empty).outcome ≠
      .ok (Target.due mailCompiler.resolver.classes Attributes.empty
        ⟨.view, "emails.button".toList, "mail::button".toList⟩) := by
  refine ⟨resolve_mailButton, fun h => ?_⟩
  rw [outcome_componentDirective resolve_mailButton, Except.ok.injEq] at h
  exact (directiveFor_eq_due_iff (Resolver.mailIsTag_of_resolveBy resolve_mailButton)).1 h
    ⟨rfl, by decide⟩

end Compiler

end ComponentTags
