import ComponentTags.Proofs.Emission
import ComponentTags.Proofs.Homomorphism
import ComponentTags.Proofs.Marks
import ComponentTags.Proofs.Strictness

/-!
# Elements stay paired

A forest is a template in which every element has its closing tag. It is compiled element by
element: each gets its own beginning and its own end around what is compiled inside it
(`compile_forest`), so the marks in the result are well nested.

1. What is put in for an opening tag has the name of a class or a view in it, and the pass for
   closing tags goes over that name. A closing tag that it finds lies inside the name
   (`leaves_directiveFor`).
2. The other directives have no tags, so the passes go through the nodes of the forest
   (`outcome_compile_nodes`).
3. The marks are read off along the forest (`Forest.reads_compiled`).
-/

namespace ComponentTags

open Text TagAttribute

/-! ## Closing tags in names -/

namespace Tag

/-- A closing tag of a component. -/
def IsClosing (u : Text) : Prop :=
  ∃ gap mark name gap', mark ∈ [['x', '-'], ['x', ':']] ∧ (∀ x ∈ gap, isSpace x = true) ∧
    (∀ x ∈ name, isTagNameChar x = true) ∧ (∀ x ∈ gap', isSpace x = true) ∧
    u = ['<', '/'] ++ (gap ++ (mark ++ (name ++ (gap' ++ ['>']))))

variable {c : Cursor} {u : Text} {x : Char}

theorem exists_isClosing {found : Unit × Nat} (h : componentClosing? c = some found) :
    ∃ u, IsClosing u ∧ u <+: c.rest := by
  rw [componentClosing?_eq_bind] at h
  obtain ⟨d, hd, h⟩ := Option.bind_eq_some_iff.1 h
  obtain ⟨c₁, hc₁, hmark⟩ := Option.bind_eq_some_iff.1 hd
  obtain ⟨⟨r₁, hr₁⟩, rfl⟩ := Cursor.expect?_eq_some_iff.1 hc₁
  have hrest₁ := Cursor.rest_advance_append hr₁.symm
  obtain ⟨gap, r₂, hr₂, hgap, -, hskip⟩ :=
    Cursor.exists_skipWhile isSpace (c.advance ['<', '/'].length)
  have hrest₂ := Cursor.rest_advance_append hr₂
  rw [hskip] at hmark
  obtain ⟨mark, hmem, ⟨r₃, hr₃⟩, rfl⟩ := (Form.mark?_eq_some_iff (k := .opening)).1 hmark
  have hrest₃ := Cursor.rest_advance_append hr₃.symm
  obtain ⟨e, he, -⟩ := Option.bind_eq_some_iff.1 h
  obtain ⟨name, r₄, hr₄, hname, -, hskip⟩ := Cursor.exists_skipWhile isTagNameChar
    (((c.advance ['<', '/'].length).advance gap.length).advance mark.length)
  have hrest₄ := Cursor.rest_advance_append hr₄
  rw [hskip] at he
  obtain ⟨gap', r₅, hr₅, hgap', -, hskip⟩ := Cursor.exists_skipWhile isSpace
    ((((c.advance ['<', '/'].length).advance gap.length).advance mark.length).advance name.length)
  have hrest₅ := Cursor.rest_advance_append hr₅
  rw [hskip, Cursor.expect?_eq_some_iff, hrest₅] at he
  obtain ⟨⟨r₆, rfl⟩, -⟩ := he
  refine ⟨_, ⟨gap, mark, name, gap', hmem, hgap, hname, hgap', rfl⟩, r₆, ?_⟩
  rw [← hr₁, ← hrest₁, hr₂, ← hrest₂, ← hr₃, ← hrest₃, hr₄, ← hrest₄, hr₅]
  simp only [List.append_assoc]

theorem IsClosing.not_mem (h : IsClosing u) (hspace : isSpace x = false)
    (htag : isTagNameChar x = false) (hrest : x ∉ ['<', '/', '>']) : x ∉ u := by
  obtain ⟨gap, mark, name, gap', hmark, hgap, hname, hgap', rfl⟩ := h
  have hm : ∀ y ∈ mark, isTagNameChar y = true := by
    rcases List.mem_cons.1 hmark with rfl | hmark
    · exact forall_mem_of_all (by decide)
    · exact List.mem_singleton.1 hmark ▸ forall_mem_of_all (by decide)
  have hclass : ∀ {p : Char → Bool} {t : Text}, p x = false → (∀ y ∈ t, p y = true) → x ∉ t :=
    fun hp ht hmem => by simp [ht x hmem] at hp
  simp only [List.mem_cons, List.not_mem_nil, or_false, not_or] at hrest
  exact List.not_mem_append (by simp [hrest]) (List.not_mem_append (hclass hspace hgap)
    (List.not_mem_append (hclass htag hm) (List.not_mem_append (hclass htag hname)
      (List.not_mem_append (hclass hspace hgap') (by simp [hrest])))))

theorem IsClosing.exists_eq (h : IsClosing u) : ∃ w, u = w ++ ['>'] := by
  obtain ⟨gap, mark, name, gap', -, -, -, -, rfl⟩ := h
  exact ⟨['<', '/'] ++ (gap ++ (mark ++ (name ++ gap'))), by simp⟩

end Tag

/-- A closing tag of a component stands in the text. -/
def Text.HoldsClosing (t : Text) : Prop :=
  ∃ u, Tag.IsClosing u ∧ u <:+: t

theorem not_holdsClosing_of_not_mem {t : Text} (h : '<' ∉ t) : ¬ HoldsClosing t := by
  rintro ⟨u, ⟨gap, mark, name, gap', -, -, -, -, rfl⟩, hin⟩
  exact h (hin.subset (by simp))

/-- A closing tag does not reach out of a name into what stands behind it, if a character that no
closing tag has comes there before the next bracket. -/
theorem misses_of_not_holdsClosing {c : Cursor} {name r v : Text} {a : Char}
    (hname : ¬ HoldsClosing name) (ha : a = '(' ∨ a = '\x27') (hr : '>' ∉ r)
    (hc : c.rest = name ++ (r ++ a :: v)) : c.Misses Tag.componentClosing? name := by
  refine Cursor.misses_of_suffix hc fun s d hs _ hd _ => ?_
  cases hhit : Tag.componentClosing? d with
  | none => rfl
  | some found =>
    obtain ⟨u, hu, hbegins⟩ := Tag.exists_isClosing hhit
    rw [hd, ← List.append_assoc] at hbegins
    have hnot : a ∉ u := by
      rcases ha with rfl | rfl <;> exact hu.not_mem (by decide) (by decide) (by decide)
    have hsr : u <+: s ++ r := prefix_of_prefix_append_cons hnot hbegins
    have hus : u <+: s := by
      rcases List.prefix_or_prefix_of_prefix hsr (List.prefix_append s r) with h | ⟨w, rfl⟩
      · exact h
      · rw [List.prefix_append_right_inj] at hsr
        rcases List.eq_nil_or_concat w with rfl | ⟨w', b, rfl⟩
        · simp
        · -- the bracket at the end of the tag would be in `r`
          obtain ⟨t, ht⟩ := hu.exists_eq
          rw [List.concat_eq_append, ← List.append_assoc] at ht
          obtain rfl : b = '>' := by simpa using (List.append_inj' ht rfl).2
          exact absurd (hsr.subset (by simp)) hr
    exact absurd ⟨u, hu, hus.isInfix.trans hs.isInfix⟩ hname

/-! ## The directive of an opening tag -/

/-- Neither a tag nor a mark begins in the text. -/
def Text.IsBare (t : Text) : Prop :=
  '<' ∉ t ∧ '@' ∉ t

instance (t : Text) : Decidable (IsBare t) :=
  inferInstanceAs (Decidable ('<' ∉ t ∧ '@' ∉ t))

theorem Text.IsBare.append {s t : Text} (hs : IsBare s) (ht : IsBare t) : IsBare (s ++ t) :=
  ⟨List.not_mem_append hs.1 ht.1, List.not_mem_append hs.2 ht.2⟩

theorem isBare_of_isTagNameChar {t : Text} (h : ∀ x ∈ t, isTagNameChar x = true) : IsBare t :=
  ⟨fun hx => absurd (h _ hx) (by decide), fun hx => absurd (h _ hx) (by decide)⟩

/-- A directive that begins a component with a name in it: in front of the name and behind it no
mark begins, and what comes right behind it ends the name. -/
def Frames (name u : Text) : Prop :=
  ∃ before after, u = Mark.componentBegin.text ++ (before ++ (name ++ after)) ∧
    IsBare before ∧ IsBare after ∧
      ((∃ v, after = "::resolve".toList ++ '(' :: v) ∨ ∃ v, after = '\x27' :: v)

theorem Directive.component_eq (className parameters : Text) :
    component className parameters = Mark.componentBegin.text ++ (className ++
      ("::resolve([".toList ++ (parameters ++ "]); ?>".toList))) := by
  unfold component Mark.text
  rw [List.append_assoc, List.append_assoc, List.append_assoc]

theorem Directive.exists_mailExpression_eq_append : ∃ opening, IsBare opening ∧
    ∀ view, mailExpression view = opening ++ (view ++ ['\x27', ')']) := by
  refine ⟨_, ?_, fun view => List.append_assoc _ view _⟩
  decide

namespace Compiler

variable {classes : Classes} {tag : Text} {target : Target}

theorem plainEntries_classParameters_empty (className : Text) :
    plainEntries (classParameters classes className Attributes.empty) = "'_data' => []".toList := by
  have hdivide : classes.divide className Attributes.empty.values = (Table.empty, Table.empty) := by
    unfold Classes.divide
    split <;> rfl
  rw [classParameters, hdivide]
  rfl

theorem exists_anonymous_eq : ∃ before after, IsBare before ∧ IsBare after ∧
    ∀ view, Directive.anonymous view Attributes.empty =
      Mark.componentBegin.text ++ (before ++ (view ++ after)) := by
  have hbegin : Mark.componentBegin.text ++
      "Illuminate\\View\\AnonymousComponent::resolve(['view' => ".toList =
        "<?php Illuminate\\View\\AnonymousComponent::resolve(['view' => ".toList := by decide
  refine ⟨"Illuminate\\View\\AnonymousComponent::resolve(['view' => ".toList,
    ",'data' => [".toList ++ "]]); ?>".toList, by decide, by decide, fun view => ?_⟩
  have hempty : arrayText Attributes.empty.values.entries = [] := rfl
  unfold Directive.anonymous
  rw [← hbegin, hempty]
  simp only [List.append_assoc, List.nil_append]

/-- The directive for a tag without attributes has what it stands for in it, or the tag itself. -/
theorem frames_directiveFor (classes : Classes) (target : Target) (htag : IsBare tag) :
    Frames target.name (directiveFor classes tag target Attributes.empty) ∨
      Frames [] (directiveFor classes tag target Attributes.empty) := by
  by_cases hc : target.kind = .classBacked
  · have hclass : target.isClass = true := by simp [Target.isClass, hc]
    refine Or.inl ⟨[], "::resolve([".toList ++ ("'_data' => []".toList ++ "]); ?>".toList), ?_,
      by decide, by decide, Or.inl ⟨_, rfl⟩⟩
    rw [directiveFor, if_pos hclass, plainEntries_classParameters_empty, Directive.component_eq,
      List.nil_append]
  obtain ⟨before, after, hbefore, hafter, heq⟩ := exists_anonymous_eq
  rw [directiveFor_of_not_class hc, heq]
  split
  · obtain ⟨opening, hopening, hmail⟩ := Directive.exists_mailExpression_eq_append
    refine Or.inr ⟨before ++ (opening ++ tag), ['\x27', ')'] ++ after, ?_,
      hbefore.append (hopening.append htag), IsBare.append (by decide) hafter, Or.inr ⟨_, rfl⟩⟩
    rw [hmail]
    simp only [List.append_assoc, List.nil_append]
  · refine Or.inl ⟨before ++ "'".toList, "'".toList ++ after, ?_, hbefore.append (by decide),
      IsBare.append (by decide) hafter, Or.inr ⟨_, rfl⟩⟩
    simp only [List.append_assoc]

/-- **Opening tags.** The pass for closing tags leaves the directive of an opening tag alone, if
there is no closing tag in the name of what it stands for. -/
theorem leaves_directiveFor (htag : IsBare tag) (hname : ¬ HoldsClosing target.name) :
    Pass.closing.Leaves (directiveFor classes tag target Attributes.empty) := by
  have hnil : ¬ HoldsClosing [] := not_holdsClosing_of_not_mem List.not_mem_nil
  suffices hframes : ∀ {name u : Text}, ¬ HoldsClosing name → Frames name u →
      Pass.closing.Leaves u by
    rcases frames_directiveFor classes target htag with h | h
    · exact hframes hname h
    · exact hframes hnil h
  intro name u hname ⟨before, after, hu, hbefore, hafter, hend⟩ c v hr
  have hquiet : Quiet (Mark.componentBegin.text ++ before) :=
    Quiet.append (by decide) (quiet_of_not_mem hbefore.1)
  have hmiss : ∀ {w z : Text} {d : Cursor}, Quiet w → d.rest = w ++ z →
      d.Misses Tag.componentClosing? w := fun hw hd =>
    Cursor.misses_of_quiet (fun _ _ => Tag.opens_of_componentClosing?) (by decide) hw hd
  subst hu
  have hr₁ : c.rest = (Mark.componentBegin.text ++ before) ++ (name ++ (after ++ v)) := by
    simp only [hr, List.append_assoc]
  have hr₂ := Cursor.rest_advance_append hr₁
  show c.Misses Tag.componentClosing? _
  rw [← List.append_assoc]
  refine (hmiss hquiet hr₁).append (Cursor.Misses.append ?_
    (hmiss (quiet_of_not_mem hafter.1) (Cursor.rest_advance_append hr₂)))
  rcases hend with ⟨w, rfl⟩ | ⟨w, rfl⟩
  · exact misses_of_not_holdsClosing hname (Or.inl rfl) (r := "::resolve".toList) (v := w ++ v)
      (by decide) (by rw [hr₂, List.append_assoc]; rfl)
  · exact misses_of_not_holdsClosing hname (Or.inr rfl) (r := []) (v := w ++ v) (by simp) hr₂

end Compiler

/-- A directive that begins a component gives one mark, if no mark is in the name in it. -/
theorem Frames.reads {name u : Text} (h : Frames name u) (hname : Mark.Absent name) (v : Text) :
    Mark.Reads u v [.componentBegin] := by
  obtain ⟨before, after, rfl, hbefore, hafter, hend⟩ := h
  have hgo : ∀ m : Mark, ∀ x ∈ (after ++ v).head?, x ∉ m.text := by
    intro m x hx
    rcases hend with ⟨w, rfl⟩ | ⟨w, rfl⟩
    · obtain rfl : ':' = x := Option.some.inj hx
      cases m <;> decide
    · obtain rfl : '\x27' = x := Option.some.inj hx
      cases m <;> decide
  have hreads : Mark.Reads name (after ++ v) [] :=
    Mark.reads_of_avoids fun m => Or.inr ⟨hname m, hgo m⟩
  exact (Mark.reads_text .componentBegin _).append
    ((Mark.reads_of_not_mem hbefore.1 hbefore.2 _).append
      (hreads.append (Mark.reads_of_not_mem hafter.1 hafter.2 v)))

/-! ## Forests -/

/-- The name of a slot as it stands in its directive. -/
def SlotName.label (name : SlotName) : Text :=
  ['\x27'] ++ (if name.text.contains '-' then Name.camelCase name.text else name.text) ++ ['\x27']

/-- A template in which every element has its closing tag: a text, or a text with an element
behind it that has a template inside and a template behind it. -/
inductive Forest where
  | leaf (s : Text) (hs : '<' ∉ s)
  | component (s : Text) (hs : '<' ∉ s) (name : TagName) (body rest : Forest)
  | slot (s : Text) (hs : '<' ∉ s) (name : SlotName) (body rest : Forest)

namespace Forest

def text : Forest → Text
  | leaf s _ => s
  | component s _ name body rest =>
    s ++ ("<x-".toList ++ name.text ++ ['>']) ++ body.text ++
      ("</x-".toList ++ name.text ++ ['>']) ++ rest.text
  | slot s _ name body rest =>
    s ++ ("<x-slot:".toList ++ name.text ++ ['>']) ++ body.text ++ "</x-slot>".toList ++ rest.text

/-- What the forest is compiled to, with the given directives for the components. -/
def compiled (directive : TagName → Text) : Forest → Text
  | leaf s _ => s
  | component s _ name body rest =>
    s ++ directive name ++ body.compiled directive ++ Directive.closing ++ rest.compiled directive
  | slot s _ name body rest =>
    s ++ Directive.slot name.label [] ++ body.compiled directive ++ Directive.slotClosing ++
      rest.compiled directive

def marks : Forest → List Mark
  | leaf _ _ => []
  | component _ _ _ body rest => .componentBegin :: body.marks ++ .componentEnd :: rest.marks
  | slot _ _ _ body rest => .slotBegin :: body.marks ++ .slotEnd :: rest.marks

def names : Forest → List TagName
  | leaf _ _ => []
  | component _ _ name body rest => name :: body.names ++ rest.names
  | slot _ _ _ body rest => body.names ++ rest.names

def texts : Forest → List Text
  | leaf s _ => [s]
  | component s _ _ body rest => s :: body.texts ++ rest.texts
  | slot s _ _ body rest => s :: body.texts ++ rest.texts

theorem wellNested_marks (f : Forest) : WellNested f.marks := by
  induction f with
  | leaf s hs => exact .nil
  | component s hs name body rest ihbody ihrest => exact .component ihbody ihrest
  | slot s hs name body rest ihbody ihrest => exact .slot ihbody ihrest

/-! ## The nodes of a forest -/

def nodes : Forest → List Node
  | leaf s hs => [.plain s (quiet_of_not_mem hs)]
  | component s hs name body rest =>
    .plain s (quiet_of_not_mem hs) :: .opening name [] :: body.nodes ++
      .closing name :: rest.nodes
  | slot s hs name body rest =>
    .plain s (quiet_of_not_mem hs) :: .slot (some name) [] :: body.nodes ++
      .slotClosing :: rest.nodes

theorem flatMap_text_nodes (f : Forest) : f.nodes.flatMap Node.text = f.text := by
  induction f with
  | leaf s hs => simp [nodes, text, Node.text]
  | component s hs name body rest ihbody ihrest =>
    simp [nodes, text, Node.text, ihbody, ihrest, Tag.closingMark, printed]
  | slot s hs name body rest ihbody ihrest =>
    simp [nodes, text, Node.text, ihbody, ihrest, Tag.closingMark, Tag.slotHead, Tag.slotOpening,
      Tag.slotName, SlotName.withColon, printed]

/-- What holds for the nodes of each form holds for the nodes of a forest. -/
theorem forall_mem_nodes {P : Node → Prop} (f : Forest) (hplain : ∀ s hs, P (.plain s hs))
    (hopening : ∀ name ∈ f.names, P (.opening name [])) (hclosing : ∀ name, P (.closing name))
    (hslot : ∀ name, P (.slot (some name) [])) (hslotClosing : P .slotClosing) :
    ∀ n ∈ f.nodes, P n := by
  induction f with
  | leaf s hs => simpa [nodes] using hplain s _
  | component s hs name body rest ihbody ihrest =>
    intro n hn
    simp only [nodes, List.mem_append, List.mem_cons, or_assoc] at hn
    rcases hn with rfl | rfl | hn | rfl | hn
    · exact hplain _ _
    · exact hopening _ (by simp [names])
    · exact ihbody (fun name hname => hopening name (by simp [names, hname])) n hn
    · exact hclosing _
    · exact ihrest (fun name hname => hopening name (by simp [names, hname])) n hn
  | slot s hs name body rest ihbody ihrest =>
    intro n hn
    simp only [nodes, List.mem_append, List.mem_cons, or_assoc] at hn
    rcases hn with rfl | rfl | hn | rfl | hn
    · exact hplain _ _
    · exact hslot _
    · exact ihbody (fun name hname => hopening name (by simp [names, hname])) n hn
    · exact hslotClosing
    · exact ihrest (fun name hname => hopening name (by simp [names, hname])) n hn

/-- What the nodes of a forest are compiled to. -/
def output (directive : TagName → Text) : Node → Text
  | .opening name _ => directive name
  | .closing _ => Directive.closing
  | .slot (some name) _ => Directive.slot name.label []
  | .slotClosing => Directive.slotClosing
  | n => n.text

theorem flatMap_output_nodes (directive : TagName → Text) (f : Forest) :
    f.nodes.flatMap (output directive) = f.compiled directive := by
  induction f with
  | leaf s hs => simp [nodes, compiled, output, Node.text]
  | component s hs name body rest ihbody ihrest =>
    simp only [nodes, compiled, List.flatMap_append, List.flatMap_cons, ihbody, ihrest]
    simp only [output, Node.text, List.append_assoc]
  | slot s hs name body rest ihbody ihrest =>
    simp only [nodes, compiled, List.flatMap_append, List.flatMap_cons, ihbody, ihrest]
    simp only [output, Node.text, List.append_assoc]

end Forest

/-! ## Compiling a forest -/

theorem AttributeReader.read_nil (reader : AttributeReader) :
    reader.read [] = .ok Attributes.empty := by
  rw [reader.read_eq_ok (Or.inl (List.forall_mem_nil _))]
  rfl

theorem isTagNameChar_case {x : Char} (h : isTagNameChar x = true) :
    x.toNat < 0x80 ∧ isTagNameChar x.toUpper = true ∧ isTagNameChar x.toLower = true := by
  have hall : ∀ n < 0x80, isTagNameChar (Char.ofNat n) = true →
      isTagNameChar (Char.ofNat n).toUpper = true ∧
        isTagNameChar (Char.ofNat n).toLower = true := by
    decide
  have hx := (toNat_of_isAttributeNameChar (isAttributeNameChar_of_isTagNameChar h)).2
  have hcase := hall x.toNat (by omega)
  rw [Char.ofNat_toNat] at hcase
  exact ⟨by omega, hcase h⟩

theorem SlotName.isBare_label (name : SlotName) : IsBare name.label := by
  have hname := name.hyphenated.isTagNameChar
  refine IsBare.append (IsBare.append (by decide) (isBare_of_isTagNameChar ?_)) (by decide)
  split
  · exact Name.forall_mem_camelCase (fun x => isTagNameChar_case) fun x hx _ => hname x hx
  · exact hname

namespace Compiler

variable {t : Compiler} {name : TagName} {target : Target}

theorem directive_opening (h : (t.resolver.resolve name.text).outcome = .ok target) :
    t.directive (.opening name []) =
      .ok (directiveFor t.resolver.classes name.text target Attributes.empty) := by
  have hopening := outcome_openingDirective (t := t) (Tag.component .opening name.text [] 0 0)
    t.reader.read_nil
  exact hopening.trans (outcome_componentDirective h)

theorem slotExpression_ofSlot_nil (name : SlotName) :
    slotExpression (Tag.ofSlot (some name) [] 0 0) = name.label := by
  obtain ⟨x, rest, hx⟩ := List.exists_cons_of_ne_nil
    (List.length_pos_iff.1 name.hyphenated.length_pos)
  have hchar := name.hyphenated.isTagNameChar x (by simp [hx])
  have hunquoted : unquoted name.text = name.text := by
    rw [hx]
    unfold unquoted
    split
    · next h =>
      obtain ⟨rfl, -⟩ := List.cons.inj h
      exact absurd hchar (by decide)
    · next h =>
      obtain ⟨rfl, -⟩ := List.cons.inj h
      exact absurd hchar (by decide)
    · rfl
  have hne : name.text ≠ [] := by simp [hx]
  have hinline : (Tag.ofSlot (some name) [] 0 0).inlineName = name.text := rfl
  have hbound : (Tag.ofSlot (some name) [] 0 0).nameBound = false := rfl
  unfold slotExpression
  simp only [hinline, hbound, hne, if_false, hunquoted, ne_eq, not_false_eq_true, true_and]
  rfl

theorem directive_slot (name : SlotName) :
    t.directive (.slot (some name) []) = .ok (Directive.slot name.label []) := by
  have hslot := outcome_slotDirective (t := t) (Tag.ofSlot (some name) [] 0 0) t.reader.read_nil
  rw [slotExpression_ofSlot_nil] at hslot
  exact hslot

/-- The passes go through the nodes, if only the directives of opening tags may have tags in them,
and those have no closing tags. -/
theorem outcome_compile_nodes {nodes : List Node} {output : Node → Text}
    (hdir : ∀ n ∈ nodes, t.directive n = .ok (output n))
    (hquiet : ∀ n ∈ nodes, n.kind? ≠ some .opening → Quiet (output n))
    (hopening : ∀ n ∈ nodes, n.kind? = some .opening → Pass.closing.Leaves (output n)) :
    (t.compile Variant.all (nodes.flatMap Node.text)).outcome = .ok (nodes.flatMap output) := by
  have hleaves : ∀ {done : List Node.Kind} (p : Pass), .opening ∉ done →
      ∀ n ∈ nodes, ∀ k ∈ done, n.kind? = some k → p.Leaves (output n) := by
    intro done p hno n hn k hk hkind
    refine Pass.leaves_of_quiet (hquiet n hn fun h => hno ?_) p
    rw [hkind] at h
    exact Option.some.inj h ▸ hk
  have hkeeps : Pass.Keeps nodes output [] (Variant.all.flatMap Variant.passes) := by
    refine ⟨hleaves _ (by decide), hleaves _ (by decide), hleaves _ (by decide),
      hleaves _ (by decide), fun n hn k hk hkind => ?_, trivial⟩
    by_cases h : k = .opening
    · exact hopening n hn (h ▸ hkind)
    · refine Pass.leaves_of_quiet (hquiet n hn fun ho => h ?_) _
      rw [hkind] at ho
      exact Option.some.inj ho
  have hslot : ∀ n ∈ nodes, n.kind? = some .slot → Quiet (output n) :=
    fun n hn h => hquiet n hn (by simp [h])
  have h := outcome_runPasses_of_keeps hdir hslot (Pass.ordered_passes Variant.all []) hkeeps
  have hstart : Node.current output [] = Node.text :=
    funext fun n => Node.current_of_not_mem (by simp)
  rw [hstart] at h
  refine h.trans (congrArg Except.ok (List.flatMap_congr fun n hn => ?_))
  cases hkind : n.kind? with
  | some k => exact Node.current_of_mem hkind (by cases k <;> decide)
  | none =>
    rw [Node.current_of_not_mem (by simp [hkind])]
    cases n with
    | plain s hs => exact Except.ok.inj (hdir _ hn)
    | _ => simp [Node.kind?] at hkind

end Compiler

namespace Forest

theorem reads_closing (v : Text) : Mark.Reads Directive.closing v [.componentEnd] :=
  (Mark.reads_of_not_mem (u := [' ']) (by decide) (by decide) _).append
    (Mark.reads_text .componentEnd v)

theorem reads_slotClosing (v : Text) : Mark.Reads Directive.slotClosing v [.slotEnd] :=
  (Mark.reads_of_not_mem (u := [' ']) (by decide) (by decide) _).append
    (Mark.reads_text .slotEnd v)

theorem reads_slot (name : SlotName) (v : Text) :
    Mark.Reads (Directive.slot name.label []) v [.slotBegin] := by
  have heq : Directive.slot name.label [] =
      [' '] ++ (Mark.slotBegin.text ++ (name.label ++ ", null, []) ".toList)) := by
    unfold Directive.slot
    rw [List.append_assoc, List.append_assoc, List.append_assoc]
    rfl
  have hbare : IsBare (name.label ++ ", null, []) ".toList) := name.isBare_label.append (by decide)
  rw [heq]
  exact (Mark.reads_of_not_mem (by decide) (by decide) _).append
    ((Mark.reads_text .slotBegin _).append (Mark.reads_of_not_mem hbare.1 hbare.2 v))

/-- **Marks.** The marks in a compiled forest are those of its elements, if the texts and the names
in it have no marks of their own. -/
theorem reads_compiled {directive : TagName → Text} (f : Forest)
    (hdir : ∀ name ∈ f.names, ∃ inner, Frames inner (directive name) ∧ Mark.Absent inner)
    (htexts : ∀ s ∈ f.texts, Mark.Absent s) {v : Text}
    (hv : ∀ x ∈ v.head?, x = ' ' ∨ x = '<') : Mark.Reads (f.compiled directive) v f.marks := by
  induction f generalizing v with
  | leaf s hs => exact (htexts s (by simp [texts])).reads hs hv
  | component s hs name body rest ihbody ihrest =>
    obtain ⟨inner, hframes, hinner⟩ := hdir name (by simp [names])
    have hbody := fun {v} => ihbody (v := v) (fun name hn => hdir name (by simp [names, hn]))
      (fun s hs => htexts s (by simp [texts, hs]))
    have hrest := ihrest (fun name hn => hdir name (by simp [names, hn]))
      (fun s hs => htexts s (by simp [texts, hs])) hv
    have hhead : ∀ w : Text, (directive name ++ w).head? = some '<' := by
      obtain ⟨before, after, heq, -⟩ := hframes
      rw [heq]
      exact fun w => rfl
    simp only [compiled, List.append_assoc]
    refine ((htexts s (by simp [texts])).reads hs ?_).append ((hframes.reads hinner _).append
      ((hbody ?_).append ((reads_closing _).append hrest)))
    · intro x hx
      rw [List.append_assoc, hhead] at hx
      exact Or.inr (Option.some.inj hx).symm
    · exact fun x hx => Or.inl (Option.some.inj hx).symm
  | slot s hs name body rest ihbody ihrest =>
    have hbody := fun {v} => ihbody (v := v) (fun name hn => hdir name (by simp [names, hn]))
      (fun s hs => htexts s (by simp [texts, hs]))
    have hrest := ihrest (fun name hn => hdir name (by simp [names, hn]))
      (fun s hs => htexts s (by simp [texts, hs])) hv
    simp only [compiled, List.append_assoc]
    refine ((htexts s (by simp [texts])).reads hs ?_).append ((reads_slot name _).append
      ((hbody ?_).append ((reads_slotClosing _).append hrest)))
    · exact fun x hx => Or.inl (Option.some.inj hx).symm
    · exact fun x hx => Or.inl (Option.some.inj hx).symm

end Forest

namespace Compiler

/-- **Elements stay paired.** If every component of a forest stands for something without a closing
tag in its name, the forest is compiled element by element: a component to its directive, what is
inside it and one end of a component, a slot to the beginning of a slot, what is inside it and one
end of a slot. The marks of the elements are well nested, and they are the marks in the result,
if no text between the tags and no name of a target has one of its own. -/
theorem compile_forest (t : Compiler) (f : Forest) (target : TagName → Target)
    (hres : ∀ name ∈ f.names, (t.resolver.resolve name.text).outcome = .ok (target name) ∧
      ¬ HoldsClosing (target name).name) :
    ∃ output, (t.compile Variant.all f.text).outcome = .ok output ∧
      (output = f.compiled fun name =>
        directiveFor t.resolver.classes name.text (target name) Attributes.empty) ∧
      WellNested f.marks ∧
      ((∀ s ∈ f.texts, Mark.Absent s) → (∀ name ∈ f.names, Mark.Absent (target name).name) →
        marksIn output = f.marks) := by
  let directive : TagName → Text := fun name =>
    directiveFor t.resolver.classes name.text (target name) Attributes.empty
  have hbare : ∀ name : TagName, IsBare name.text := fun name =>
    isBare_of_isTagNameChar name.isRun.2
  have hdir : ∀ n ∈ f.nodes, t.directive n = .ok (Forest.output directive n) :=
    f.forall_mem_nodes (fun _ _ => rfl) (fun name hn => directive_opening (hres name hn).1)
      (fun _ => rfl) directive_slot rfl
  have hquiet : ∀ n ∈ f.nodes, n.kind? ≠ some .opening → Quiet (Forest.output directive n) := by
    have hends : Quiet Directive.closing ∧ Quiet Directive.slotClosing := by decide
    exact f.forall_mem_nodes (fun s hs _ => hs) (fun name hn h => absurd rfl h)
      (fun _ _ => hends.1)
      (fun name _ => quiet_slot (quiet_of_not_mem name.isBare_label.1) trivial) (fun _ => hends.2)
  have hopening : ∀ n ∈ f.nodes, n.kind? = some .opening →
      Pass.closing.Leaves (Forest.output directive n) := by
    refine f.forall_mem_nodes (fun s hs h => ?_)
      (fun name hn _ => leaves_directiveFor (hbare name) (hres name hn).2) (fun _ h => ?_)
      (fun _ h => ?_) (fun h => ?_)
    all_goals simp [Node.kind?] at h
  have hcompile := outcome_compile_nodes hdir hquiet hopening
  rw [f.flatMap_text_nodes, f.flatMap_output_nodes] at hcompile
  refine ⟨_, hcompile, rfl, f.wellNested_marks, fun htexts hnames => ?_⟩
  refine (f.reads_compiled (fun name hn => ?_) htexts (by simp)).marksIn_eq
  rcases frames_directiveFor t.resolver.classes (target name) (hbare name) with h | h
  · exact ⟨_, h, hnames name hn⟩
  · exact ⟨_, h, Mark.absent_of_not_mem List.not_mem_nil List.not_mem_nil⟩

/-- A component with a text, a slot and another component inside it. -/
def nestedForest : Forest :=
  .component "a ".toList (by decide) cardName
    (.slot "b".toList (by decide)
      ⟨"side".toList ++ '-' :: "bar".toList, .cons (by decide) (.word (by decide))⟩
      (.component [] (by decide) cardName (.leaf "c".toList (by decide))
        (.leaf [] (by decide)))
      (.leaf "d".toList (by decide)))
    (.leaf " e".toList (by decide))

def cardTarget : Target :=
  ⟨.view, "cards.default".toList, "card".toList⟩

theorem compile_nestedForest :
    nestedForest.text =
      "a <x-card>b<x-slot:side-bar><x-card>c</x-card></x-slot>d</x-card> e".toList ∧
    (∀ name ∈ nestedForest.names,
      (cardCompiler.resolver.resolve name.text).outcome = .ok cardTarget ∧
        ¬ HoldsClosing cardTarget.name) ∧
    ∃ output, (cardCompiler.compile Variant.all nestedForest.text).outcome = .ok output ∧
      marksIn output = [.componentBegin, .slotBegin, .componentBegin, .componentEnd, .slotEnd,
        .componentEnd] ∧ WellNested (marksIn output) := by
  have hres : ∀ name ∈ nestedForest.names,
      (cardCompiler.resolver.resolve name.text).outcome = .ok cardTarget ∧
        ¬ HoldsClosing cardTarget.name := by
    have hnames : nestedForest.names = [cardName, cardName] := rfl
    intro name hn
    obtain rfl : name = cardName := by simpa [hnames] using hn
    exact ⟨rfl, not_holdsClosing_of_not_mem (by decide)⟩
  obtain ⟨output, hout, -, hnested, hmarks⟩ :=
    compile_forest cardCompiler nestedForest (fun _ => cardTarget) hres
  have hread : marksIn output = nestedForest.marks := by
    refine hmarks (fun s hs => ?_) fun _ _ => Mark.absent_of_not_mem (by decide) (by decide)
    have htexts : ∀ s ∈ nestedForest.texts, '<' ∉ s ∧ '@' ∉ s := by decide
    exact Mark.absent_of_not_mem (htexts s hs).1 (htexts s hs).2
  exact ⟨rfl, hres, output, hout, hread, hread ▸ hnested⟩

end Compiler

end ComponentTags
