import ComponentTags.Proofs.Nesting

/-!
# Names that do not pair

Two kinds of names are no names of elements. The opening tag of a name with a hyphen at its end is
not found, because an arrow is not taken for the end of a tag, but its closing tag is
(`compile_hyphen`). The opening tag of a name that begins with `slot` is that of a component, and
its closing tag is taken for the end of a slot (`compile_slotLike`). And what a name stands for can
have a closing tag in its own name, which is compiled with the others (`compile_tags`).
-/

namespace ComponentTags

open Text TagAttribute

/-! ## Two tags in a row -/

namespace Compiler

variable {α : Type} {hit : Cursor → Option (α × Nat)} {f : α → Traced Text} {x y : Char}
  {u u' w w' name : Text}

def openingTag (name : Text) : Text :=
  '<' :: 'x' :: '-' :: (name ++ ['>'])

theorem openingTag_eq (name : Text) : openingTag name =
    '<' :: (['x', '-'] ++ name) ++ printed ([] : List (TagAttribute true)) ++ ['>'] := by
  simp [openingTag, printed]

def closingTag (name : Text) : Text :=
  '<' :: '/' :: 'x' :: '-' :: (name ++ ['>'])

/-- A search with its replacements puts `u'` in the place of `u`, whatever stands around it. -/
def Exchanges (hit : Cursor → Option (α × Nat)) (f : α → Traced Text) (u u' : Text) : Prop :=
  ∀ (c : Cursor) (v : Text), c.rest = u ++ v → (c.Misses hit u ∧ u' = u) ∨
    ∃ item, u ≠ [] ∧ hit c = some (item, u.length) ∧ (f item).outcome = .ok u'

theorem Exchanges.outcome_expandM (hu : Exchanges hit f u u') (hw : Exchanges hit f w w') :
    (Piece.expandM f ((Cursor.start (u ++ w)).pieces hit)).outcome = .ok (u' ++ w') := by
  have hboth : ∀ b ∈ [(u, u'), (w, w')], Exchanges hit f b.1 b.2 := by
    simpa using ⟨hu, hw⟩
  have h := Cursor.outcome_expandM_flatMap (c := Cursor.start (u ++ w)) hboth
    (by simp [Cursor.start])
  simpa using h

theorem exchanges_of_none (hopen : ∀ d found, hit d = some found → d.Opens x) (hx : x ≠ '?')
    (hu : '<' ∉ u) (hnone : ∀ (c : Cursor) (v : Text), c.rest = '<' :: u ++ v → hit c = none) :
    Exchanges hit f ('<' :: u) ('<' :: u) :=
  fun c v hr => Or.inl ⟨Cursor.misses_of_hit_eq_none hopen hx hu hr (hnone c v hr), rfl⟩

/-- A search leaves tags alone that begin with another character. -/
theorem exchanges_of_initial (hopen : ∀ d found, hit d = some found → d.Opens x) (hx : x ≠ '?')
    (hy : isBlank y = false) (hne : y ≠ x) (hu : '<' ∉ y :: u) :
    Exchanges hit f ('<' :: y :: u) ('<' :: y :: u) := by
  refine exchanges_of_none hopen hx hu fun c v hr => ?_
  cases hhit : hit c with
  | none => rfl
  | some found => exact absurd ((hopen c found hhit).eq hr hy) hne

theorem exchanges_of_quiet (hopen : ∀ d found, hit d = some found → d.Opens x) (hx : x ≠ '?')
    (hu : Quiet u) : Exchanges hit f u u :=
  fun _ _ hr => Or.inl ⟨Cursor.misses_of_quiet hopen hx hu hr, rfl⟩

theorem outcome_compile_all {t : Compiler} {s₀ s₁ s₂ s₃ s₄ s₅ : Text}
    (hlive : (t.livePass s₀).outcome = .ok s₁) (hslots : (t.slotPass s₁).outcome = .ok s₂)
    (hself : (t.selfClosingPass s₂).outcome = .ok s₃)
    (hopening : (t.openingPass s₃).outcome = .ok s₄) (hclosing : closeComponents s₄ = s₅) :
    (t.compile Variant.all s₀).outcome = .ok s₅ := by
  have hpasses : t.compile Variant.all s₀ =
      t.runPasses [.live, .slots, .selfClosing, .opening, .closing] s₀ := rfl
  rw [hpasses]
  simp only [runPasses, runPass, Traced.outcome_bind, hlive, hslots, hself, hopening, Except.bind,
    Traced.outcome_pure, hclosing]

theorem Exchanges.outcome_slotPass {t : Compiler} {u' w' : Text}
    (hu : Exchanges Tag.Grammar.slot.hit? t.slotDirective u u)
    (hw : Exchanges Tag.Grammar.slot.hit? t.slotDirective w w)
    (hu' : Exchanges Tag.slotClosing? (fun _ => pure Directive.slotClosing) u u')
    (hw' : Exchanges Tag.slotClosing? (fun _ => pure Directive.slotClosing) w w') :
    (t.slotPass (u ++ w)).outcome = .ok (u' ++ w') := by
  have hopen : (Piece.expandM t.slotDirective (Tag.Grammar.slot.pieces (u ++ w))).outcome =
      .ok (u ++ w) := hu.outcome_expandM hw
  rw [slotPass, Traced.outcome_map, hopen]
  exact (Piece.outcome_expandM_pure _ _).symm.trans (hu'.outcome_expandM hw')

theorem Exchanges.closeComponents_eq {u' w' : Text}
    (hu : Exchanges Tag.componentClosing? (fun _ => pure Directive.closing) u u')
    (hw : Exchanges Tag.componentClosing? (fun _ => pure Directive.closing) w w') :
    closeComponents (u ++ w) = u' ++ w' :=
  Except.ok.inj ((Piece.outcome_expandM_pure _ _).symm.trans (hu.outcome_expandM hw))

end Compiler

/-! ## The tags of a name -/

namespace Tag

variable {c : Cursor} {name v : Text}

/-- An arrow is not the end of an opening tag. -/
theorem opening_hit?_hyphen (hname : ∀ x ∈ name, isTagNameChar x = true)
    (hlast : name.getLast? = some '-') (hr : c.rest = '<' :: 'x' :: '-' :: (name ++ ['>']) ++ v) :
    Grammar.opening.hit? c = none := by
  have hr₁ : c.rest = '<' :: (['x', '-'] ++ name) ++
      (printed ([] : List (TagAttribute true)) ++ ([] ++ '>' :: v)) := by
    simp [hr, printed]
  have hr₂ : c.rest = ('<' :: (['x', '-'] ++ name) ++
      (printed ([] : List (TagAttribute true)) ++ [])) ++ '>' :: v := by
    simp [hr, printed]
  have hbefore := Cursor.before_advance_append hr₂
  obtain ⟨w, rfl⟩ := List.getLast?_eq_some_iff.1 hlast
  have hend : Form.opening.grammar.ending (c.advance ('<' :: (['x', '-'] ++ (w ++ ['-'])) ++
      (printed ([] : List (TagAttribute true)) ++ [])).length) = none := by
    show bracketEnd? _ = none
    rw [bracketEnd?, hbefore]
    simp [printed]
  have h := Form.hit?_printed (k := .opening) (Form.takes fun _ => ⟨rfl, rfl⟩)
    (by simp [Form.marks]) hname (List.forall_mem_nil _) (Or.inr rfl) hr₁
  rw [hend] at h
  exact h

/-- Behind `slot` an attribute or an ending is needed. -/
theorem slot_hit?_slotLike {x : Char} {r : Text} (hx : isTagNameChar x = true) (hc : x ≠ ':')
    (hr : c.rest = slotOpening ++ x :: r) : Grammar.slot.hit? c = none := by
  have hblank : isBlank x = false :=
    isBlank_of_isAttributeNameChar (isAttributeNameChar_of_isTagNameChar hx)
  have hspace : isSpace x = false := by
    by_contra h
    rw [isBlank_of_isSpace (by simpa using h)] at hblank
    simp at hblank
  have hbracket : x ≠ '>' := by
    rintro rfl
    exact absurd hx (by decide)
  have hrest := Cursor.rest_advance_append hr
  have hhead : slotHead? c = some { inlineName := [], stop := c.advance slotOpening.length } := by
    have hcolon : (c.advance slotOpening.length).expect? [':'] = none := by
      rw [Cursor.expect?_eq_none_iff, hrest]
      simpa using hc.symm
    simp only [slotHead?, afterSlotMark?_eq hr (by decide : isSpace 'x' = false),
      Option.bind_eq_bind, Option.bind_some, readInlineName, hcolon]
    rfl
  have hskip : ∀ {p : Char → Bool}, p x = false →
      (c.advance slotOpening.length).skipWhile p = c.advance slotOpening.length := by
    intro p hp
    apply Cursor.skipWhile_of_stops
    rw [hrest]
    exact stops_cons.2 hp
  have hnamed : slotNameHead? c = none := by
    simp only [slotNameHead?, hhead, Option.bind_eq_bind, Option.bind_some, hskip hspace,
      Nat.le_refl, if_true]
  have hending : bracketEnd? (c.advance slotOpening.length) = none := by
    have hexpect : (c.advance slotOpening.length).expect? ['>'] = none := by
      rw [Cursor.expect?_eq_none_iff, hrest]
      simpa using hbracket.symm
    unfold bracketEnd?
    split
    · exact hexpect
    · rw [hexpect, ite_self]
  have hscan : Grammar.slot.scan (c.advance slotOpening.length) = none := by
    rw [Grammar.scan_eq, hskip hblank]
    simp [Grammar.endsAfter, Grammar.finish, Grammar.slot, hending]
  unfold Grammar.hit?
  split
  · have hnone : Grammar.slot.tagAt? c = none := by
      show [slotNameHead?, slotHead?].findSome? _ = none
      simp [hnamed, hhead, Grammar.complete?, Grammar.search_eq_scan, hscan]
    rw [hnone]
    rfl
  · rfl

/-- Anything may stand behind `slot` in the end of a slot. -/
theorem slotClosing?_slotLike {r : Text} (hn : '>' ∉ r)
    (hr : c.rest = (closingMark ++ (slotName ++ r) ++ ['>']) ++ v) :
    slotClosing? c = some ((), (closingMark ++ (slotName ++ r) ++ ['>']).length) := by
  have hr₁ : c.rest = closingMark ++ (slotName ++ (r ++ '>' :: v)) := by simp [hr]
  have hr₂ : (c.advance closingMark.length).rest = slotName ++ (r ++ '>' :: v) :=
    Cursor.rest_advance_append hr₁
  have hr₃ := Cursor.rest_advance_append hr₂
  have hskip := Cursor.skipWhile_append (p := (· != '>')) hr₃
    (fun x hx => by simpa using fun e : x = '>' => hn (e ▸ hx)) (stops_cons.2 (by decide))
  rw [slotClosing?_eq_bind, afterClosingMark?_eq (by decide) hr₁, Option.bind_some,
    Cursor.expect?_append hr₂, Option.bind_some, hskip, Cursor.advance_advance,
    Cursor.advance_advance, ← List.length_append, ← List.length_append, List.append_assoc]
  exact expect?_bracket hr

end Tag

namespace Compiler

variable {t : Compiler} {name : Text}

section Tags

variable (hname : ∀ x ∈ name, isTagNameChar x = true)

include hname

theorem not_mem_openingTag : '<' ∉ 'x' :: '-' :: (name ++ ['>']) := by
  have hbare := (isBare_of_isTagNameChar hname).1
  simpa using hbare

theorem not_mem_closingTag : '<' ∉ '/' :: 'x' :: '-' :: (name ++ ['>']) := by
  have hbare := (isBare_of_isTagNameChar hname).1
  simpa using hbare

theorem outcome_livePass_tags :
    (t.livePass (openingTag name ++ closingTag name)).outcome =
      .ok (openingTag name ++ closingTag name) :=
  (exchanges_of_initial (fun _ _ => Tag.Form.opens_of_hit? (k := .live)) (by decide) (by decide)
    (by decide) (not_mem_openingTag hname)).outcome_expandM
    (exchanges_of_initial (fun _ _ => Tag.Form.opens_of_hit? (k := .live)) (by decide)
      (by decide) (by decide) (not_mem_closingTag hname))

/-- The searches for tags that begin with `x` leave a closing tag alone. -/
theorem exchanges_closingTag {α : Type} {hit : Cursor → Option (α × Nat)} {f : α → Traced Text}
    (hopen : ∀ d found, hit d = some found → d.Opens 'x') :
    Exchanges hit f (closingTag name) (closingTag name) :=
  exchanges_of_initial hopen (by decide) (by decide) (by decide) (not_mem_closingTag hname)

/-- The searches for closing tags leave an opening tag alone. -/
theorem exchanges_openingTag {α : Type} {hit : Cursor → Option (α × Nat)} {f : α → Traced Text}
    (hopen : ∀ d found, hit d = some found → d.Opens '/') :
    Exchanges hit f (openingTag name) (openingTag name) :=
  exchanges_of_initial hopen (by decide) (by decide) (by decide) (not_mem_openingTag hname)

theorem exchanges_openingTag_selfClosing :
    Exchanges Tag.Grammar.selfClosing.hit? t.selfClosingDirective (openingTag name)
      (openingTag name) :=
  exchanges_of_none (fun _ _ => Tag.Form.opens_of_hit? (k := .selfClosing)) (by decide)
    (not_mem_openingTag hname) fun c v hr => Node.selfClosing_hit?_eq_none hname []
      (by rw [hr, ← openingTag, openingTag_eq])

theorem outcome_slotPass_tags (hslot : ¬ Tag.slotName <+: name) :
    (t.slotPass (openingTag name ++ closingTag name)).outcome =
      .ok (openingTag name ++ closingTag name) := by
  have hno : ∀ v : Text, ¬ Tag.slotName <+: name ++ '>' :: v := fun v h =>
    hslot (prefix_of_prefix_append_cons (by decide) h)
  refine Exchanges.outcome_slotPass
    (exchanges_of_none (fun _ _ => Tag.opens_of_hit?_slot) (by decide)
      (not_mem_openingTag hname) fun c v hr => ?_)
    (exchanges_closingTag hname fun _ _ => Tag.opens_of_hit?_slot)
    (exchanges_openingTag hname fun _ _ => Tag.opens_of_slotClosing?)
    (exchanges_of_none (fun _ _ => Tag.opens_of_slotClosing?) (by decide)
      (not_mem_closingTag hname) fun c v hr => ?_)
  · have hr₁ : c.rest = '<' :: 'x' :: '-' :: (name ++ '>' :: v) := by simp [hr]
    exact Tag.hit?_slot_eq_none hr₁ (hno v)
  · have hr₁ : c.rest = Tag.closingMark ++ (name ++ '>' :: v) := by simp [hr, Tag.closingMark]
    exact Tag.slotClosing?_eq_none hr₁ (hno v)

theorem outcome_selfClosingPass_tags :
    (t.selfClosingPass (openingTag name ++ closingTag name)).outcome =
      .ok (openingTag name ++ closingTag name) :=
  (exchanges_openingTag_selfClosing hname).outcome_expandM
    (exchanges_closingTag hname fun _ _ => Tag.Form.opens_of_hit? (k := .selfClosing))

theorem exchanges_openingTag_opening {target : Target} (hne : name ≠ [])
    (hlast : name.getLast? ≠ some '-')
    (hres : (t.resolver.resolve name).outcome = .ok target) :
    Exchanges Tag.Grammar.opening.hit? t.openingDirective (openingTag name)
      (directiveFor t.resolver.classes name target Attributes.empty) := by
  intro c v hr
  rw [openingTag_eq] at hr ⊢
  obtain ⟨stop, hhit⟩ := Node.opening_hit?_eq_some ⟨hne, hname⟩ hlast [] hr
  refine Or.inr ⟨_, by simp, hhit, ?_⟩
  exact (outcome_openingDirective (Tag.component .opening name [] c.pos stop)
    t.reader.read_nil).trans (outcome_componentDirective hres)

end Tags

/-- **Other names.** The closing tags are looked for in what the name stands for, too. -/
theorem compile_tags (t : Compiler) (hname : ∀ x ∈ name, isTagNameChar x = true)
    (hne : name ≠ []) (hslot : ¬ Tag.slotName <+: name) (hlast : name.getLast? ≠ some '-')
    {target : Target} (hres : (t.resolver.resolve name).outcome = .ok target) :
    (t.compile Variant.all (openingTag name ++ closingTag name)).outcome =
      .ok (closeComponents (directiveFor t.resolver.classes name target Attributes.empty ++
        closingTag name)) := by
  have hopening : (t.openingPass (openingTag name ++ closingTag name)).outcome =
      .ok (directiveFor t.resolver.classes name target Attributes.empty ++ closingTag name) :=
    (exchanges_openingTag_opening hname hne hlast hres).outcome_expandM
      (exchanges_closingTag hname fun _ _ => Tag.Form.opens_of_hit? (k := .opening))
  exact outcome_compile_all (outcome_livePass_tags hname) (outcome_slotPass_tags hname hslot)
    (outcome_selfClosingPass_tags hname) hopening rfl

/-- **Hyphens.** A name with a hyphen at its end has an end and no beginning. -/
theorem compile_hyphen (t : Compiler) (hname : ∀ x ∈ name, isTagNameChar x = true)
    (hslot : ¬ Tag.slotName <+: name) (hlast : name.getLast? = some '-') :
    (t.compile Variant.all (openingTag name ++ closingTag name)).outcome =
      .ok (openingTag name ++ Directive.closing) := by
  have hopening : (t.openingPass (openingTag name ++ closingTag name)).outcome =
      .ok (openingTag name ++ closingTag name) :=
    (exchanges_of_none (fun _ _ => Tag.Form.opens_of_hit? (k := .opening)) (by decide)
      (not_mem_openingTag hname)
      fun _ _ hr => Tag.opening_hit?_hyphen hname hlast hr).outcome_expandM
      (exchanges_closingTag hname fun _ _ => Tag.Form.opens_of_hit? (k := .opening))
  have hclosing : closeComponents (openingTag name ++ closingTag name) =
      openingTag name ++ Directive.closing :=
    (exchanges_openingTag hname fun _ _ => Tag.opens_of_componentClosing?).closeComponents_eq
      fun c v hr => Or.inr ⟨(), by simp [closingTag], Tag.componentClosing?_eq hname hr, rfl⟩
  exact outcome_compile_all (outcome_livePass_tags hname) (outcome_slotPass_tags hname hslot)
    (outcome_selfClosingPass_tags hname) hopening hclosing

/-- **Slots.** A name that begins with `slot` has the beginning of a component and the end of a
slot. -/
theorem compile_slotLike (t : Compiler) {x : Char} {r : Text}
    (hname : ∀ y ∈ Tag.slotName ++ x :: r, isTagNameChar y = true) (hc : x ≠ ':')
    (hlast : (Tag.slotName ++ x :: r).getLast? ≠ some '-') {target : Target}
    (hres : (t.resolver.resolve (Tag.slotName ++ x :: r)).outcome = .ok target)
    (htarget : ¬ HoldsClosing target.name) :
    (t.compile Variant.all (openingTag (Tag.slotName ++ x :: r) ++
        closingTag (Tag.slotName ++ x :: r))).outcome =
      .ok (directiveFor t.resolver.classes (Tag.slotName ++ x :: r) target Attributes.empty ++
        Directive.slotClosing) := by
  obtain ⟨name, hn⟩ : ∃ name, Tag.slotName ++ x :: r = name := ⟨_, rfl⟩
  have hx : isTagNameChar x = true := hname x (by simp)
  have hbracket : '>' ∉ x :: r := fun h =>
    absurd (hname '>' (List.mem_append_right _ h)) (by decide)
  have hend : Quiet Directive.slotClosing := by decide
  have hslots : (t.slotPass (openingTag (Tag.slotName ++ x :: r) ++
      closingTag (Tag.slotName ++ x :: r))).outcome =
        .ok (openingTag (Tag.slotName ++ x :: r) ++ Directive.slotClosing) := by
    refine Exchanges.outcome_slotPass
      (exchanges_of_none (fun _ _ => Tag.opens_of_hit?_slot) (by decide)
        (not_mem_openingTag hname) fun c v hr => ?_)
      (exchanges_closingTag hname fun _ _ => Tag.opens_of_hit?_slot)
      (exchanges_openingTag hname fun _ _ => Tag.opens_of_slotClosing?)
      fun c v hr => Or.inr
        ⟨(), by simp [closingTag], Tag.slotClosing?_slotLike hbracket hr, rfl⟩
    have hr₁ : c.rest = Tag.slotOpening ++ x :: (r ++ '>' :: v) := by simp [hr, Tag.slotOpening]
    exact Tag.slot_hit?_slotLike hx hc hr₁
  rw [hn] at hname hlast hres hslots ⊢
  have hne : name ≠ [] := by simp [← hn]
  have hself : (t.selfClosingPass (openingTag name ++ Directive.slotClosing)).outcome =
      .ok (openingTag name ++ Directive.slotClosing) :=
    (exchanges_openingTag_selfClosing hname).outcome_expandM
      (exchanges_of_quiet (fun _ _ => Tag.Form.opens_of_hit? (k := .selfClosing)) (by decide) hend)
  have hopening : (t.openingPass (openingTag name ++ Directive.slotClosing)).outcome =
      .ok (directiveFor t.resolver.classes name target Attributes.empty ++
        Directive.slotClosing) :=
    (exchanges_openingTag_opening hname hne hlast hres).outcome_expandM
      (exchanges_of_quiet (fun _ _ => Tag.Form.opens_of_hit? (k := .opening)) (by decide) hend)
  have hclosing : closeComponents (directiveFor t.resolver.classes name target Attributes.empty ++
      Directive.slotClosing) =
        directiveFor t.resolver.classes name target Attributes.empty ++ Directive.slotClosing :=
    Exchanges.closeComponents_eq
      (fun c v hr => Or.inl
        ⟨leaves_directiveFor (isBare_of_isTagNameChar hname) htarget c v hr, rfl⟩)
      (exchanges_of_quiet (fun _ _ => Tag.opens_of_componentClosing?) (by decide) hend)
  exact outcome_compile_all (outcome_livePass_tags hname) hslots hself hopening hclosing

/-- A project with a view for a name of each kind, and a class with a closing tag in its name. -/
def oddCompiler : Compiler where
  resolver :=
    { config := { aliases := .ofList [("b".toList, "</x-c>".toList)] }
      classes := ⟨fun name => name == "</x-c>".toList, fun _ => []⟩
      views := Views.ofList ["components.a-".toList, "components.slots".toList] }
  reader := ⟨Echo.compile, false⟩

/-- What the name that begins with `slot` stands for there. -/
def slotsTarget : Target :=
  ⟨.view, "components.slots".toList, "slots".toList⟩

/-- What the alias of that class stands for. -/
def closingTarget : Target :=
  ⟨.classBacked, "</x-c>".toList, "b".toList⟩

theorem marksIn_hyphen :
    marksIn (openingTag "a-".toList ++ Directive.closing) = [.componentEnd] := by
  rfl

theorem marksIn_slots :
    marksIn (directiveFor oddCompiler.resolver.classes "slots".toList slotsTarget
      Attributes.empty ++ Directive.slotClosing) = [.componentBegin, .slotEnd] := by
  have hbegin : Mark.Reads (directiveFor oddCompiler.resolver.classes "slots".toList slotsTarget
      Attributes.empty) (Directive.slotClosing ++ []) [.componentBegin] := by
    rcases frames_directiveFor oddCompiler.resolver.classes slotsTarget
      (by decide : IsBare "slots".toList) with h | h
    · exact h.reads (Mark.absent_of_not_mem (by decide) (by decide)) _
    · exact h.reads (Mark.absent_of_not_mem List.not_mem_nil List.not_mem_nil) _
  exact (hbegin.append (Forest.reads_slotClosing [])).marksIn_eq

theorem marksIn_closing :
    marksIn (closeComponents (directiveFor oddCompiler.resolver.classes "b".toList closingTarget
      Attributes.empty ++ closingTag "b".toList)) =
        [.componentBegin, .componentEnd, .componentEnd] := by
  rfl

/-- The text is a name other than those of slots and resolves, and the marks of its element are
not well nested. -/
def Unpairs (t : Compiler) (name : Text) : Prop :=
  IsRun isTagNameChar name ∧ name ≠ Tag.slotName ∧ ¬ Tag.slotName ++ [':'] <+: name ∧
    (∃ target, (t.resolver.resolve name).outcome = .ok target) ∧
    ∃ output, (t.compile Variant.all (openingTag name ++ closingTag name)).outcome = .ok output ∧
      ¬ WellNested (marksIn output)

/-- A name with a hyphen at its end, a name that begins with `slot`, and a name that stands for a
class with a closing tag in its name. -/
theorem unpairs_oddNames : oddCompiler.Unpairs "a-".toList ∧ oddCompiler.Unpairs "slots".toList ∧
    oddCompiler.Unpairs "b".toList := by
  -- in each of the outputs components are begun and ended unequally often
  have huneven : ∀ {output : Text} {marks : List Mark}, marksIn output = marks →
      marks.count .componentBegin ≠ marks.count .componentEnd → ¬ WellNested (marksIn output) :=
    fun hmarks hne h => hne (hmarks ▸ h.count_eq)
  have hslots : (oddCompiler.resolver.resolve "slots".toList).outcome = .ok slotsTarget := rfl
  have hclosing : (oddCompiler.resolver.resolve "b".toList).outcome = .ok closingTarget := rfl
  refine ⟨?_, ?_, ?_⟩
  · exact ⟨by decide, by decide, by decide, ⟨_, rfl⟩, _,
      compile_hyphen oddCompiler (forall_mem_of_all (by decide)) (by decide) (by decide),
      huneven marksIn_hyphen (by decide)⟩
  · exact ⟨by decide, by decide, by decide, ⟨_, hslots⟩, _,
      compile_slotLike oddCompiler (x := 's') (r := []) (forall_mem_of_all (by decide))
        (by decide) (by decide) hslots (not_holdsClosing_of_not_mem (by decide)),
      huneven marksIn_slots (by decide)⟩
  · exact ⟨by decide, by decide, by decide, ⟨_, hclosing⟩, _,
      compile_tags oddCompiler (forall_mem_of_all (by decide)) (by decide) (by decide) (by decide)
        hclosing,
      huneven marksIn_closing (by decide)⟩

end Compiler

end ComponentTags
