import ComponentTags.Proofs.CamelKeys
import ComponentTags.Proofs.Emission

/-!
# The parameters of a class

A tag that stands for a class becomes a directive with an array of parameters: the attributes that
the constructor takes under their names in camel case, and the others together in one last entry.
Nothing is lost but what a later attribute with the same name replaces
(`componentDirective_of_class`).

1. A class that a tag stands for exists, so its attributes are divided and do not stand on both
   sides (`divides_divide`). What decides is the name in camel case.
2. The attributes that are taken are written one after the other under their names in camel case
   (`passes_ofList`). These have no underscores, so the last entry has a name of its own.
-/

namespace ComponentTags

open Text

/-! ## Attributes on two sides -/

namespace Classes

/-- Whether the constructor of a class takes an attribute. -/
def Takes (classes : Classes) (className key : Text) : Prop :=
  ∃ name ∈ classes.parameters className, Name.folded key = Name.folded name

/-- The attributes that the constructor of a class takes, and the rest. -/
structure Divides (classes : Classes) (className : Text) (values taken rest : Table Text) :
    Prop where
  /-- The class exists. -/
  declared : classes.declared className = true
  taken_sublist : taken.entries.Sublist values.entries
  rest_sublist : rest.entries.Sublist values.entries
  mem_taken_iff : ∀ e ∈ values.entries, e ∈ taken.entries ↔ classes.Takes className e.1
  mem_rest_iff : ∀ e ∈ values.entries, e ∈ rest.entries ↔ e ∉ taken.entries
  /-- Attributes with the same name in camel case are on the same side. -/
  same_side : ∀ e ∈ values.entries, ∀ e' ∈ values.entries,
    Name.camelCase e.1 = Name.camelCase e'.1 → (e ∈ taken.entries ↔ e' ∈ taken.entries)

variable {classes : Classes} {className : Text}

theorem takes_congr {key key' : Text} (h : Name.camelCase key = Name.camelCase key') :
    classes.Takes className key ↔ classes.Takes className key' := by
  rw [Takes, Takes, Name.folded, Name.folded, h]

theorem contains_folded_iff {key : Text} :
    ((classes.parameters className).map Name.folded).contains (Name.folded key) = true ↔
      classes.Takes className key := by
  simp [Takes, eq_comm]

theorem divides_divide (h : classes.declared className = true) (values : Table Text) :
    classes.Divides className values (classes.divide className values).1
      (classes.divide className values).2 := by
  rw [divide, if_pos h]
  have htaken : ∀ e ∈ values.entries, e ∈ (values.filter fun key _ =>
      ((classes.parameters className).map Name.folded).contains (Name.folded key)).entries ↔
        classes.Takes className e.1 := fun e he => by
    rw [← contains_folded_iff]
    exact List.mem_filter.trans (and_iff_right he)
  refine ⟨h, List.filter_sublist, List.filter_sublist, htaken, fun e he => ?_,
    fun e he e' he' hcamel => ?_⟩
  · rw [htaken e he, ← contains_folded_iff, Bool.not_eq_true, ← Bool.not_eq_true']
    exact List.mem_filter.trans (and_iff_right he)
  · rw [htaken e he, htaken e' he', takes_congr hcamel]

end Classes

/-! ## Parameters under names in camel case -/

/-- The parameters as which some attributes are passed: their names in camel case, each where it
came first and with the value of the last attribute that has it. -/
structure Passes (taken parameters : List (Text × Text)) : Prop where
  names : parameters.map Prod.fst = (taken.map fun e => Name.camelCase e.1).eraseDups
  mem_iff : ∀ name value, (name, value) ∈ parameters ↔
    ∃ before key after, taken = before ++ (key, value) :: after ∧ Name.camelCase key = name ∧
      ∀ e ∈ after, Name.camelCase e.1 ≠ name

theorem passes_ofList (taken : List (Text × Text)) :
    Passes taken (Table.ofList (taken.map fun e => (Name.camelCase e.1, e.2))).entries where
  names := by
    change (Table.ofList _).keys = _
    rw [Table.keys_ofList, List.map_map]
    rfl
  mem_iff := by
    intro name value
    rw [← Table.get?_eq_some_iff, Table.get?_ofList, Entries.lastWith_map,
      Entries.lastWith_eq_some_iff]
    simp only [decide_eq_true_eq, decide_eq_false_iff_not, ne_eq]

namespace Passes

variable {taken parameters : List (Text × Text)}

theorem eq_ofList (h : Passes taken parameters) :
    parameters = (Table.ofList (taken.map fun e => (Name.camelCase e.1, e.2))).entries := by
  have hsame := passes_ofList taken
  have hnodup : (parameters.map Prod.fst).Nodup := by
    rw [h.names, ← hsame.names]
    exact (Table.ofList _).nodup
  refine congrArg Table.entries (Table.ext_of_get? (t := ⟨parameters, hnodup⟩) ?_ fun name => ?_)
  · exact h.names.trans hsame.names.symm
  · ext value
    rw [Table.get?_eq_some_iff, Table.get?_eq_some_iff]
    exact (h.mem_iff name value).trans (hsame.mem_iff name value).symm

/-- Only a later attribute takes the place of another. -/
theorem mem_or_exists_later (h : Passes taken parameters) {e : Text × Text} (he : e ∈ taken) :
    (Name.camelCase e.1, e.2) ∈ parameters ∨ ∃ before after, taken = before ++ e :: after ∧
      ∃ e' ∈ after, Name.camelCase e'.1 = Name.camelCase e.1 := by
  obtain ⟨before, after, hsplit⟩ := List.append_of_mem he
  by_cases hlater : ∃ e' ∈ after, Name.camelCase e'.1 = Name.camelCase e.1
  · exact .inr ⟨before, after, hsplit, hlater⟩
  · refine .inl ((h.mem_iff _ _).2 ⟨before, e.1, after, hsplit, rfl, fun e' he' heq => ?_⟩)
    exact hlater ⟨e', he', heq⟩

/-- No attribute has the name of the last parameter. -/
theorem restParameter_not_mem (h : Passes taken parameters)
    (htaken : ∀ e ∈ taken, ∀ c ∈ e.1, isAttributeNameChar c = true) :
    restParameter ∉ parameters.map Prod.fst := by
  rw [h.names, List.mem_eraseDups]
  intro hm
  obtain ⟨e, he, hname⟩ := List.mem_map.1 hm
  have hno := Name.not_mem_camelCase (htaken e he)
  rw [hname] at hno
  exact hno (by decide)

end Passes

namespace Compiler

/-- **Parameters of a class.** The attributes of a tag that stands for a class are divided: each of
them is on one side, and those that have the same name in camel case are on the same side. Those
that the constructor takes are passed in camel case, and the others come last in an entry with a
name that no attribute has. Only a later attribute of the same name takes the place of another. -/
theorem componentDirective_of_class (t : Compiler) (tag : Text) (attributes : Attributes)
    (target : Target) (h : (t.resolver.resolve tag).outcome = .ok target)
    (hclass : target.kind = .classBacked)
    (hkeys : ∀ key ∈ attributes.values.keys, ∀ c ∈ key, isAttributeNameChar c = true) :
    ∃ (taken rest : Table Text) (parameters : List (Text × Text)),
      t.resolver.classes.divide target.name attributes.values = (taken, rest) ∧
      t.resolver.classes.Divides target.name attributes.values taken rest ∧
      Passes taken.entries parameters ∧
      "_data".toList ∉ parameters.map Prod.fst ∧
      (t.componentDirective tag attributes).outcome =
        .ok ("<?php ".toList ++ target.name ++ "::resolve([".toList ++
          arrayText (parameters ++
            [("_data".toList, "[".toList ++ arrayText rest.entries ++ "]".toList)]) ++
          "]); ?>".toList) ∧
      ∀ e ∈ attributes.values.entries,
        e ∈ rest.entries ∨ (Name.camelCase e.1, e.2) ∈ parameters ∨
          ∃ before after, taken.entries = before ++ e :: after ∧
            ∃ e' ∈ after, Name.camelCase e'.1 = Name.camelCase e.1 := by
  rcases hdivide : t.resolver.classes.divide target.name attributes.values with ⟨taken, rest⟩
  have hdeclared := Resolver.declared_of_resolveBy h hclass
  have hdivides := Classes.divides_divide hdeclared attributes.values
  rw [hdivide] at hdivides
  have hpasses := passes_ofList taken.entries
  have hnames := hpasses.restParameter_not_mem fun e he =>
    hkeys e.1 (List.mem_map_of_mem (hdivides.taken_sublist.subset he))
  have hentries : (classParameters t.resolver.classes target.name attributes).entries =
      (Table.ofList (taken.entries.map fun e => (Name.camelCase e.1, e.2))).entries ++
        [(restParameter, arrayOf (plainEntries rest))] := by
    rw [classParameters, hdivide]
    exact Entries.put_of_not_mem hnames _
  refine ⟨taken, rest, _, rfl, hdivides, hpasses, hnames, ?_, fun e he => ?_⟩
  · rw [outcome_componentDirective h, directiveFor_of_class hclass, hentries,
      plainEntries_eq_arrayText]
    rfl
  · by_cases hm : e ∈ taken.entries
    · exact .inr (hpasses.mem_or_exists_later hm)
    · exact .inl ((hdivides.mem_rest_iff e he).2 hm)

/-- A project with a class that has an alias, written with a backslash in front. -/
def badgeCompiler : Compiler where
  resolver :=
    { config := { aliases := .ofList [("badge".toList, "\\App\\Badge".toList)] }
      classes := (ClassTable.ofList
        [("App\\Badge".toList, .names ["user_name".toList, "data".toList])]).toClasses
      views := Views.ofList [] }
  reader := ⟨Echo.compile, false⟩

/-- A name in two spellings, one that is not taken, and one like that of the last parameter. -/
def badgeAttributes : Attributes where
  values := .ofList [("user-name".toList, ['1']), ("class".toList, ['2']), ("_data".toList, ['3']),
    ("userName".toList, ['4'])]
  bound := []

theorem resolve_badge : (badgeCompiler.resolver.resolve "badge".toList).outcome =
    .ok ⟨.classBacked, "\\App\\Badge".toList, "badge".toList⟩ := by
  rfl

theorem componentDirective_badge :
    (badgeCompiler.resolver.resolve "badge".toList).outcome =
      .ok ⟨.classBacked, "\\App\\Badge".toList, "badge".toList⟩ ∧
    (∀ key ∈ badgeAttributes.values.keys, ∀ c ∈ key, isAttributeNameChar c = true) ∧
    (badgeCompiler.componentDirective "badge".toList badgeAttributes).outcome =
      .ok ("<?php \\App\\Badge::resolve(['userName' => 4,'data' => 3," ++
        "'_data' => ['class' => 2]]); ?>").toList := by
  have hall : (badgeAttributes.values.keys.all fun key => key.all isAttributeNameChar) = true := by
    decide
  have hkeys : ∀ key ∈ badgeAttributes.values.keys, ∀ c ∈ key, isAttributeNameChar c = true :=
    fun key hkey => List.all_eq_true.1 (List.all_eq_true.1 hall key hkey)
  obtain ⟨taken, rest, parameters, hdivide, -, hpasses, -, hdirective, -⟩ :=
    componentDirective_of_class badgeCompiler _ badgeAttributes _ resolve_badge rfl hkeys
  have htaken : taken.entries = [("user-name".toList, ['1']), ("_data".toList, ['3']),
      ("userName".toList, ['4'])] :=
    (congrArg (fun sides => sides.1.entries) hdivide).symm.trans (by decide)
  have hrest : rest.entries = [("class".toList, ['2'])] :=
    (congrArg (fun sides => sides.2.entries) hdivide).symm.trans (by decide)
  rw [htaken] at hpasses
  have hparameters : parameters = [("userName".toList, ['4']), ("data".toList, ['3'])] :=
    hpasses.eq_ofList.trans (by decide)
  rw [hparameters, hrest] at hdirective
  refine ⟨resolve_badge, hkeys, hdirective.trans ?_⟩
  decide

end Compiler

end ComponentTags
