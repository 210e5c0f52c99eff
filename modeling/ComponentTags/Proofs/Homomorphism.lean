import ComponentTags.Proofs.Directives
import ComponentTags.Proofs.Node

/-!
# Compilation is a homomorphism

A template is compiled node by node (`compile_flatMap`), although every pass goes over the whole
text that the last one left.

1. The text that is put in the place of a tag has no tags (`exists_directive`).
2. So in the course of the passes the template is the list of its nodes, of which those of the
   kinds that are `done` stand as they are compiled (`current`). A search for the tags of a kind
   adds that kind, if it leaves alone what is done (`outcome_search`), a pass adds its kinds
   (`outcome_runPass`), and a list of passes adds theirs (`outcome_runPasses_of_keeps`).
3. A pass finds its own tags only, if the tags that begin like them are done (`Pass.after`); the
   order of the passes in a variant sees to that (`Pass.ordered_passes`).
-/

namespace ComponentTags

open Text TagAttribute

namespace Compiler

variable {t : Compiler} {n : Node}

/-! ## The directive for a node -/

def directive (t : Compiler) : Node → Except CompileError Text
  | .plain s _ => .ok s
  | .slot name attributes => (t.slotDirective (Tag.ofSlot name attributes 0 0)).outcome
  | .slotClosing => .ok Directive.slotClosing
  | .selfClosing name attributes =>
    (t.selfClosingDirective
      (Tag.component .selfClosing name.text (printed attributes ++ [' ']) 0 0)).outcome
  | .opening name attributes =>
    (t.openingDirective (Tag.component .opening name.text (printed attributes) 0 0)).outcome
  | .closing _ => .ok Directive.closing
  | .live name attributes =>
    (t.liveDirective
      (Tag.component .selfClosing name.text (printed attributes ++ [' ']) 0 0)).outcome

section Place

variable (t) (kind : Tag.Kind) (name attributes : Text) (start stop : Nat)

theorem slotDirective_ofSlot (name : Option SlotName) (l : List (TagAttribute false)) :
    t.slotDirective (Tag.ofSlot name l start stop) = t.slotDirective (Tag.ofSlot name l 0 0) := by
  unfold Tag.ofSlot
  split <;> simp only [slotDirective, slotExpression]

theorem selfClosingDirective_component :
    t.selfClosingDirective (Tag.component kind name attributes start stop) =
      t.selfClosingDirective (Tag.component kind name attributes 0 0) := by
  simp only [selfClosingDirective, Tag.component]

theorem openingDirective_component :
    t.openingDirective (Tag.component kind name attributes start stop) =
      t.openingDirective (Tag.component kind name attributes 0 0) := by
  simp only [openingDirective, Tag.component]

theorem liveDirective_component :
    t.liveDirective (Tag.component kind name attributes start stop) =
      t.liveDirective (Tag.component kind name attributes 0 0) := by
  simp only [liveDirective, Tag.component]

end Place

/-- The name of a component stands for something without `<` in its name. -/
def Resolves (t : Compiler) (name : TagName) : Prop :=
  ∃ target, (t.resolver.resolve name.text).outcome = .ok target ∧ '<' ∉ target.name

theorem exists_read_printed {component : Bool} (hecho : t.reader.echo = Echo.compile)
    (l : List (TagAttribute component)) {blanks : Text} (hb : blanks = [] ∨ blanks = [' ']) :
    ∃ attributes, t.reader.read (printed l ++ blanks) = .ok attributes ∧
      attributes.values.IsQuiet := by
  have hblank : '<' ∉ blanks ∧ ∀ x ∈ blanks, isBlank x = true := by
    rcases hb with rfl | rfl
    · simp
    · exact ⟨by decide, forall_mem_of_all (by decide)⟩
  refine AttributeReader.exists_read hecho
    (List.not_mem_append (not_mem_printed l) hblank.1) ?_
  cases l with
  | nil => exact Or.inr hblank.2
  | cons a l =>
    obtain ⟨x, s, hs, hx⟩ := a.exists_text_eq_cons
    exact Or.inl ⟨x, by simp [printed_cons, hs], hx⟩

theorem exists_componentDirective {name : TagName} {attributes : Attributes}
    (hres : t.Resolves name) (ha : attributes.values.IsQuiet) :
    ∃ s, (t.componentDirective name.text attributes).outcome = .ok s ∧ Quiet s := by
  obtain ⟨target, htarget, hname⟩ := hres
  refine ⟨directiveFor t.resolver.classes name.text target attributes, ?_,
    quiet_directiveFor ha (Node.not_mem_tagName name) hname⟩
  rw [componentDirective, Traced.outcome_bind, htarget]
  rfl

section Reading

variable (m : Tag) {attributes : Attributes} (h : t.reader.read m.attributes = .ok attributes)

include h

theorem outcome_slotDirective : (t.slotDirective m).outcome =
    .ok (Directive.slot (slotExpression m) attributes.sanitizedEntries) := by
  rw [slotDirective, Traced.outcome_bind, Traced.ofExcept, h]
  rfl

theorem outcome_selfClosingDirective : (t.selfClosingDirective m).outcome =
    (t.componentDirective m.name attributes).outcome.map (· ++ Directive.selfClosing) := by
  simp only [selfClosingDirective, Traced.outcome_bind, Traced.log, Traced.ofExcept, h,
    Except.bind]
  cases (t.componentDirective m.name attributes).outcome <;> rfl

theorem outcome_openingDirective :
    (t.openingDirective m).outcome = (t.componentDirective m.name attributes).outcome := by
  simp only [openingDirective, Traced.outcome_bind, Traced.log, Traced.ofExcept, h, Except.bind]

theorem outcome_liveDirective (hn : reservedLive? m.name = none) :
    (t.liveDirective m).outcome = .ok (Directive.printed Directive.anonymousComponent
      (plainEntries (liveKeys attributes.values))) := by
  rw [liveDirective, hn]
  simp only [Traced.outcome_bind, Traced.ofExcept, h]
  rfl

end Reading

theorem quiet_slotExpression_ofSlot (name : Option SlotName) (l : List (TagAttribute false)) :
    Quiet (slotExpression (Tag.ofSlot name l 0 0)) := by
  have hname : IsPlain (SlotName.textOf name) := by
    refine AttributeReader.isPlain_of_name fun x hx => ?_
    cases name with
    | none => simp [SlotName.textOf] at hx
    | some name => exact isAttributeNameChar_of_isTagNameChar (name.hyphenated.isTagNameChar x hx)
  unfold Tag.ofSlot
  split
  · exact quiet_slotExpression hname List.not_mem_nil
  · next hn => exact quiet_slotExpression hname (Tag.not_mem_of_namedBy? hn)

/-- **Directives.** If its component resolves, a node has a directive, and no tags in it. -/
theorem exists_directive (hecho : t.reader.echo = Echo.compile)
    (hres : ∀ name ∈ n.component?, t.Resolves name) :
    ∃ s, t.directive n = .ok s ∧ Quiet s := by
  cases n with
  | plain s hs => exact ⟨s, rfl, hs⟩
  | slot name l =>
    obtain ⟨rest, hrest⟩ : ∃ rest, (Tag.ofSlot name l 0 0).attributes = printed rest ++ [] := by
      unfold Tag.ofSlot
      split <;> exact ⟨_, (List.append_nil _).symm⟩
    obtain ⟨attributes, hread, ha⟩ := exists_read_printed hecho rest (Or.inl rfl)
    rw [← hrest] at hread
    exact ⟨_, outcome_slotDirective _ hread,
      quiet_slot (quiet_slotExpression_ofSlot name l) (quiet_arrayEntries ha _)⟩
  | slotClosing => exact ⟨_, rfl, by decide⟩
  | selfClosing name l =>
    obtain ⟨attributes, hread, ha⟩ := exists_read_printed hecho l (Or.inr rfl)
    obtain ⟨s, hs, hq⟩ := exists_componentDirective (hres name (by simp [Node.component?])) ha
    refine ⟨s ++ Directive.selfClosing, ?_, hq.append (by decide)⟩
    have h := outcome_selfClosingDirective
      (Tag.component .selfClosing name.text (printed l ++ [' ']) 0 0) hread
    rw [show (Tag.component .selfClosing name.text (printed l ++ [' ']) 0 0).name = name.text
      from rfl, hs] at h
    exact h
  | opening name l =>
    obtain ⟨attributes, hread, ha⟩ := exists_read_printed hecho l (Or.inl rfl)
    rw [List.append_nil] at hread
    obtain ⟨s, hs, hq⟩ := exists_componentDirective (hres name (by simp [Node.component?])) ha
    have h := outcome_openingDirective (Tag.component .opening name.text (printed l) 0 0) hread
    exact ⟨s, h.trans hs, hq⟩
  | closing name => exact ⟨_, rfl, by decide⟩
  | live name l =>
    obtain ⟨attributes, hread, ha⟩ := exists_read_printed hecho l (Or.inr rfl)
    cases hn : reservedLive? name.text with
    | some s =>
      refine ⟨s, ?_, ?_⟩
      · simp only [directive, liveDirective, Tag.component, hn]
        rfl
      · unfold reservedLive? at hn
        split at hn
        · obtain rfl := Option.some.inj hn
          decide
        · split at hn
          · obtain rfl := Option.some.inj hn
            decide
          · simp at hn
    | none =>
      have h := outcome_liveDirective
        (Tag.component .selfClosing name.text (printed l ++ [' ']) 0 0) hread hn
      exact ⟨_, h,
        quiet_printed (by decide) (quiet_arrayEntries (isQuiet_liveKeys ha) _)⟩

end Compiler

/-! ## Passes over nodes -/

namespace Pass

/-- The kinds of tags that a pass compiles. -/
def kinds : Pass → List Node.Kind
  | live => [.live]
  | slots => [.slot, .slotClosing]
  | selfClosing => [.selfClosing]
  | opening => [.opening]
  | closing => [.closing]

/-- The kinds of tags that begin like those of a pass and are compiled before it. -/
def after : Pass → List Node.Kind
  | live => []
  | slots => []
  | selfClosing => [.slot]
  | opening => [.slot, .selfClosing]
  | closing => [.slotClosing]

/-- Each pass has the kinds before it that it comes after. -/
def Ordered : List Node.Kind → List Pass → Prop
  | _, [] => True
  | done, p :: rest => (∀ k ∈ p.after, k ∈ done) ∧ Ordered (done ++ p.kinds) rest

theorem ordered_passes (variants : List Variant) (done : List Node.Kind) :
    Ordered done (variants.flatMap Variant.passes) := by
  induction variants generalizing done with
  | nil => trivial
  | cons variant variants ih =>
    cases variant with
    | standard =>
      show Ordered done (slots :: selfClosing :: opening :: closing ::
        variants.flatMap Variant.passes)
      refine ⟨?_, ?_, ?_, ?_, ih _⟩
      all_goals simp [after, kinds]
    | live =>
      show Ordered done (live :: variants.flatMap Variant.passes)
      exact ⟨by simp [after], ih _⟩

/-- The searches of a pass find nothing at any place in the next `u`. -/
def Misses (p : Pass) (c : Cursor) (u : Text) : Prop :=
  match p with
  | live => c.Misses Tag.Grammar.live.hit? u
  | slots => c.Misses Tag.Grammar.slot.hit? u ∧ c.Misses Tag.slotClosing? u
  | selfClosing => c.Misses Tag.Grammar.selfClosing.hit? u
  | opening => c.Misses Tag.Grammar.opening.hit? u
  | closing => c.Misses Tag.componentClosing? u

/-- A pass finds nothing in a text, whatever stands around it. -/
def Leaves (p : Pass) (u : Text) : Prop :=
  ∀ (c : Cursor) (v : Text), c.rest = u ++ v → p.Misses c u

theorem leaves_of_quiet {u : Text} (hu : Quiet u) (p : Pass) : p.Leaves u := by
  intro c v hr
  have hmiss : ∀ {α : Type} {hit : Cursor → Option (α × Nat)} {x : Char}, x ≠ '?' →
      (∀ d found, hit d = some found → d.Opens x) → c.Misses hit u :=
    fun hx hopen => Cursor.misses_of_quiet hopen hx hu hr
  cases p with
  | live => exact hmiss (by decide) fun d found => Tag.Form.opens_of_hit? (k := .live)
  | slots =>
    exact ⟨hmiss (by decide) fun d found => Tag.opens_of_hit?_slot,
      hmiss (by decide) fun d found => Tag.opens_of_slotClosing?⟩
  | selfClosing =>
    exact hmiss (by decide) fun d found => Tag.Form.opens_of_hit? (k := .selfClosing)
  | opening => exact hmiss (by decide) fun d found => Tag.Form.opens_of_hit? (k := .opening)
  | closing => exact hmiss (by decide) fun d found => Tag.opens_of_componentClosing?

/-- Each pass leaves alone what the passes before it made of the nodes. -/
def Keeps (nodes : List Node) (output : Node → Text) : List Node.Kind → List Pass → Prop
  | _, [] => True
  | done, p :: rest =>
    (∀ n ∈ nodes, ∀ k ∈ done, n.kind? = some k → p.Leaves (output n)) ∧
      Keeps nodes output (done ++ p.kinds) rest

theorem keeps_of_quiet {nodes : List Node} {output : Node → Text}
    (hquiet : ∀ n ∈ nodes, Quiet (output n)) (done : List Node.Kind) (passes : List Pass) :
    Keeps nodes output done passes := by
  induction passes generalizing done with
  | nil => trivial
  | cons p passes ih => exact ⟨fun n hn _ _ _ => leaves_of_quiet (hquiet n hn) p, ih _⟩

end Pass

namespace Node

/-- The node in the course of the passes: as it is compiled, if its kind is done. -/
def current (output : Node → Text) (done : List Kind) (n : Node) : Text :=
  if ∃ k ∈ done, n.kind? = some k then output n else n.text

variable {output : Node → Text} {done : List Kind} {n : Node} {j k : Kind}

theorem current_of_mem (hk : n.kind? = some k) (h : k ∈ done) :
    n.current output done = output n :=
  if_pos ⟨k, h, hk⟩

theorem current_of_not_mem (h : ∀ k ∈ n.kind?, k ∉ done) : n.current output done = n.text :=
  if_neg fun ⟨k, hk, hn⟩ => h k hn hk

theorem isBlank_initial (k : Kind) : isBlank k.initial = false ∧ k.initial ≠ '?' := by
  cases k <;> decide

theorem quiet_text (h : n.kind? = none) : Quiet n.text := by
  cases n with
  | plain s hs => exact hs
  | _ => simp [kind?] at h

end Node

namespace Compiler

open Node

variable {t : Compiler} {nodes : List Node} {output : Node → Text} {done : List Kind}
  {k : Kind}

/-- **One search.** A search for the tags of a kind compiles the nodes of that kind. -/
theorem outcome_search {α : Type} {hit : Cursor → Option (α × Nat)} {f : α → Traced Text}
    {c : Cursor}
    (hleft : ∀ n ∈ nodes, ∀ j ∈ done, n.kind? = some j → ∀ (c : Cursor) (v : Text),
      c.rest = output n ++ v → c.Misses hit (output n))
    (hopen : ∀ d found, hit d = some found → d.Opens k.initial)
    (hfound : ∀ n ∈ nodes, n.kind? = some k → ∀ (c : Cursor) (v : Text), c.rest = n.text ++ v →
      ∃ item, hit c = some (item, n.text.length) ∧ (f item).outcome = .ok (output n))
    (hmissed : ∀ n ∈ nodes, ∀ j, n.kind? = some j → j ∉ done → j ≠ k → j.initial = k.initial →
      ∀ (c : Cursor) (v : Text), c.rest = n.text ++ v → hit c = none)
    (hr : c.rest = nodes.flatMap (current output done)) :
    (Piece.expandM f (c.pieces hit)).outcome =
      .ok (nodes.flatMap (current output (done ++ [k]))) := by
  refine Cursor.outcome_expandM_flatMap (fun n hn c v hr => ?_) hr
  cases hkind : n.kind? with
  | none =>
    have hsame : ∀ done, n.current output done = n.text :=
      fun done => current_of_not_mem (by simp [hkind])
    rw [hsame] at hr ⊢
    rw [hsame]
    exact Or.inl ⟨Cursor.misses_of_quiet hopen (isBlank_initial k).2 (quiet_text hkind) hr, rfl⟩
  | some j =>
    by_cases hdone : j ∈ done
    · -- what is compiled already is left alone
      rw [current_of_mem hkind hdone] at hr ⊢
      rw [current_of_mem hkind (List.mem_append_left _ hdone)]
      exact Or.inl ⟨hleft n hn j hdone hkind c v hr, rfl⟩
    have hnow : n.current output done = n.text := current_of_not_mem (by simpa [hkind] using hdone)
    obtain ⟨s, hs, hbracket⟩ := exists_text_eq hkind
    rw [hnow] at hr ⊢
    by_cases hjk : j = k
    · -- a tag of the kind that is looked for
      subst hjk
      obtain ⟨item, hhit, hf⟩ := hfound n hn hkind c v hr
      rw [current_of_mem hkind (by simp)]
      exact Or.inr ⟨item, by simp [hs], hhit, hf⟩
    · -- a tag of another kind
      have hnone : hit c = none := by
        by_cases hi : j.initial = k.initial
        · exact hmissed n hn j hkind hdone hjk hi c v hr
        · cases hhit : hit c with
          | none => rfl
          | some found =>
            rw [hs] at hr
            exact absurd ((hopen c found hhit).eq hr (isBlank_initial j).1) hi
      rw [current_of_not_mem (by simpa [hkind] using ⟨hdone, hjk⟩)]
      rw [hs] at hr ⊢
      refine Or.inl ⟨Cursor.misses_of_hit_eq_none hopen (isBlank_initial k).2 ?_ hr hnone, rfl⟩
      exact List.not_mem_cons_of_ne_of_not_mem (by cases j <;> decide) hbracket

section Passes

variable (hdir : ∀ n ∈ nodes, t.directive n = .ok (output n))
  (hslot : ∀ n ∈ nodes, n.kind? = some .slot → Quiet (output n))

include hdir hslot

theorem outcome_slotPass
    (hleft : ∀ n ∈ nodes, ∀ j ∈ done, n.kind? = some j → Pass.slots.Leaves (output n)) :
    (t.slotPass (nodes.flatMap (current output done))).outcome =
      .ok (nodes.flatMap (current output (done ++ [.slot, .slotClosing]))) := by
  have hopen : (Piece.expandM t.slotDirective
      (Tag.Grammar.slot.pieces (nodes.flatMap (current output done)))).outcome =
        .ok (nodes.flatMap (current output (done ++ [.slot]))) := by
    refine outcome_search (k := .slot) (fun n hn j hj hk c v hr => (hleft n hn j hj hk c v hr).1)
      (fun d found => Tag.opens_of_hit?_slot) (fun n hn hk c v hr => ?_)
      (fun n hn j hk hj hne hi c v hr => slot_missed hk hne hi hr) rfl
    cases n with
    | slot name l =>
      obtain ⟨stop, hhit⟩ := found_slot hr
      refine ⟨_, hhit, ?_⟩
      rw [slotDirective_ofSlot]
      exact hdir _ hn
    | _ => simp [kind?] at hk
  -- the second search goes over what the first one put in
  have hleft' : ∀ n ∈ nodes, ∀ j ∈ done ++ [.slot], n.kind? = some j →
      Pass.slots.Leaves (output n) := by
    intro n hn j hj hk
    rcases List.mem_append.1 hj with hj | hj
    · exact hleft n hn j hj hk
    · obtain rfl := List.mem_singleton.1 hj
      exact Pass.leaves_of_quiet (hslot n hn hk) .slots
  rw [slotPass, Traced.outcome_map, hopen]
  refine (Piece.outcome_expandM_pure _ _).symm.trans ?_
  rw [show done ++ [Kind.slot, .slotClosing] = done ++ [.slot] ++ [.slotClosing] by simp]
  refine outcome_search (k := .slotClosing)
    (fun n hn j hj hk c v hr => (hleft' n hn j hj hk c v hr).2)
    (fun d found => Tag.opens_of_slotClosing?) (fun n hn hk c v hr => ?_)
    (fun n hn j hk hj hne hi c v hr => slotClosing_missed hk hne hi hr) rfl
  cases n with
  | slotClosing => exact ⟨(), Tag.slotClosing?_eq hr, hdir _ hn⟩
  | _ => simp [kind?] at hk

/-- **One pass.** A pass compiles the nodes of its kinds. -/
theorem outcome_runPass {p : Pass}
    (hleft : ∀ n ∈ nodes, ∀ j ∈ done, n.kind? = some j → p.Leaves (output n))
    (hp : ∀ k ∈ p.after, k ∈ done) :
    (t.runPass (nodes.flatMap (current output done)) p).outcome =
      .ok (nodes.flatMap (current output (done ++ p.kinds))) := by
  cases p with
  | live =>
    refine outcome_search (k := .live) hleft
      (fun d found => Tag.Form.opens_of_hit? (k := .live)) (fun n hn hk c v hr => ?_)
      (fun n hn j hk hj hne hi => ?_) rfl
    · cases n with
      | live name l =>
        obtain ⟨stop, hhit⟩ := found_live hr
        refine ⟨_, hhit, ?_⟩
        rw [liveDirective_component]
        exact hdir _ hn
      | _ => simp [kind?] at hk
    · cases j <;> simp [Kind.initial] at hi hne
  | slots => exact outcome_slotPass hdir hslot hleft
  | selfClosing =>
    refine outcome_search (k := .selfClosing) hleft
      (fun d found => Tag.Form.opens_of_hit? (k := .selfClosing)) (fun n hn hk c v hr => ?_)
      (fun n hn j hk hj hne hi c v hr => ?_) rfl
    · cases n with
      | selfClosing name l =>
        obtain ⟨stop, hhit⟩ := found_selfClosing hr
        refine ⟨_, hhit, ?_⟩
        rw [selfClosingDirective_component]
        exact hdir _ hn
      | _ => simp [kind?] at hk
    · have hslot : j ≠ .slot := fun e => hj (e ▸ hp .slot (by simp [Pass.after]))
      exact selfClosing_missed hk hne hslot hi hr
  | opening =>
    refine outcome_search (k := .opening) hleft
      (fun d found => Tag.Form.opens_of_hit? (k := .opening)) (fun n hn hk c v hr => ?_)
      (fun n hn j hk hj hne hi => ?_) rfl
    · cases n with
      | opening name l =>
        obtain ⟨stop, hhit⟩ := found_opening hr
        refine ⟨_, hhit, ?_⟩
        rw [openingDirective_component]
        exact hdir _ hn
      | _ => simp [kind?] at hk
    · -- the other tags with `x` are done
      have hslot : j ≠ .slot := fun e => hj (e ▸ hp .slot (by simp [Pass.after]))
      have hself : j ≠ .selfClosing := fun e => hj (e ▸ hp .selfClosing (by simp [Pass.after]))
      cases j <;> simp [Kind.initial] at hi hne hslot hself
  | closing =>
    refine (Piece.outcome_expandM_pure _ _).symm.trans ?_
    refine outcome_search (k := .closing) hleft
      (fun d found => Tag.opens_of_componentClosing?) (fun n hn hk c v hr => ?_)
      (fun n hn j hk hj hne hi => ?_) rfl
    · cases n with
      | closing name =>
        exact ⟨(), Tag.componentClosing?_eq name.isRun.2 hr, hdir _ hn⟩
      | _ => simp [kind?] at hk
    · have hslot : j ≠ .slotClosing := fun e => hj (e ▸ hp .slotClosing (by simp [Pass.after]))
      cases j <;> simp [Kind.initial] at hi hne hslot

theorem outcome_runPasses_of_keeps {passes : List Pass} (hp : Pass.Ordered done passes)
    (hkeeps : Pass.Keeps nodes output done passes) :
    (t.runPasses passes (nodes.flatMap (current output done))).outcome =
      .ok (nodes.flatMap (current output (done ++ passes.flatMap Pass.kinds))) := by
  induction passes generalizing done with
  | nil =>
    rw [List.flatMap_nil, List.append_nil]
    rfl
  | cons p passes ih =>
    rw [runPasses, Traced.outcome_bind, outcome_runPass hdir hslot hkeeps.1 hp.1]
    refine (ih hp.2 hkeeps.2).trans ?_
    rw [List.flatMap_cons, List.append_assoc]

end Passes

/-- The nodes have the given outputs, and those are without tags. -/
def Outputs (t : Compiler) (nodes : List Node) (output : Node → Text) : Prop :=
  ∀ n ∈ nodes, t.directive n = .ok (output n) ∧ Quiet (output n)

theorem outcome_runPasses (hout : t.Outputs nodes output) {passes : List Pass}
    (hp : Pass.Ordered done passes) :
    (t.runPasses passes (nodes.flatMap (current output done))).outcome =
      .ok (nodes.flatMap (current output (done ++ passes.flatMap Pass.kinds))) :=
  outcome_runPasses_of_keeps (fun n hn => (hout n hn).1) (fun n hn _ => (hout n hn).2) hp
    (Pass.keeps_of_quiet (fun n hn => (hout n hn).2) _ _)

/-- What is left of a node by the passes of some variants: its directive, if one of them compiles
tags of its kind, and otherwise the node as it is. -/
def compiled (t : Compiler) (variants : List Variant) (n : Node) : Except CompileError Text :=
  if ∃ k ∈ (variants.flatMap Variant.passes).flatMap Pass.kinds, n.kind? = some k then
    t.directive n
  else .ok n.text

/-- **Compilation is a homomorphism.** If every component of a list of nodes resolves to something
without `<` in its name, the text of the list is compiled, with any variants in any order, to the
concatenation of what its nodes are compiled to, each on its own; and that is the directive of the
node, if one of the variants has its kind. -/
theorem compile_flatMap (t : Compiler) (hecho : t.reader.echo = Echo.compile)
    (variants : List Variant) (nodes : List Node)
    (hres : ∀ n ∈ nodes, ∀ name ∈ n.component?, t.Resolves name) :
    ∃ output : Node → Text,
      (∀ n ∈ nodes, (t.compile variants n.text).outcome = .ok (output n) ∧
        t.compiled variants n = .ok (output n)) ∧
      (t.compile variants (nodes.flatMap Node.text)).outcome = .ok (nodes.flatMap output) := by
  let directiveText : Node → Text := fun n => (t.directive n).toOption.getD []
  let kinds := (variants.flatMap Variant.passes).flatMap Pass.kinds
  have hout : t.Outputs nodes directiveText := by
    intro n hn
    obtain ⟨s, hs, hq⟩ := exists_directive hecho (hres n hn)
    have hd : directiveText n = s := by simp [directiveText, hs, Except.toOption]
    rw [hd]
    exact ⟨hs, hq⟩
  -- at the beginning no kind is done, at the end those of the variants
  have hrun : ∀ nodes' : List Node, t.Outputs nodes' directiveText →
      (t.compile variants (nodes'.flatMap Node.text)).outcome =
        .ok (nodes'.flatMap (current directiveText kinds)) := by
    intro nodes' hout'
    have hstart : current directiveText [] = Node.text :=
      funext fun n => current_of_not_mem (by simp)
    have h := outcome_runPasses hout' (Pass.ordered_passes variants [])
    rw [hstart, List.nil_append] at h
    exact h
  refine ⟨current directiveText kinds, fun n hn => ⟨?_, ?_⟩, hrun nodes hout⟩
  · have h := hrun [n] fun m hm => hout m (List.mem_singleton.1 hm ▸ hn)
    simpa only [List.flatMap_cons, List.flatMap_nil, List.append_nil] using h
  · unfold compiled current
    split
    · exact (hout n hn).1
    · rfl

/-- A compiler in which the component `card` is a view. -/
def cardCompiler : Compiler where
  resolver := {
    config := { aliases := .ofList [("card".toList, "cards.default".toList)] }
    classes := ⟨fun _ => false, fun _ => []⟩
    views := fun _ => .ok true }
  reader := ⟨Echo.compile, true⟩

def cardName : TagName :=
  ⟨"card".toList, by decide, by decide, by decide⟩

def eachNode : List Node :=
  [.plain "a > b ".toList (by decide),
    .opening cardName
      [⟨.literal ['a'] "1".toList, by decide, by decide⟩,
        ⟨.bound ['b'] "$x->y".toList, by decide, by decide⟩,
        ⟨.boundVariable ['c'], by decide, by decide⟩,
        ⟨.flag ['d'], by decide, by decide⟩,
        ⟨.call .classes "(['e' => f()])".toList, by decide, by decide⟩],
    .slot (some ⟨"top".toList ++ '-' :: "left".toList, .cons (by decide) (.word (by decide))⟩)
      [⟨.flag ['g'], by decide, by decide⟩],
    .slotClosing,
    .namedSlot "footer".toList (by decide) (by decide) [],
    .slotClosing,
    .selfClosing cardName [],
    .closing cardName,
    .live cardName [⟨.literal ['h'] [], by decide, by decide⟩]]

def eachOutput : List Text :=
  ["a > b ".toList,
    "<?php Illuminate\\View\\AnonymousComponent::resolve([".toList ++
      "'view' => 'cards.default','data' => [".toList ++
      "'a' => '1','b' => $x->y,'c' => $c,'d' => true,".toList ++
      "'class' => \\Illuminate\\Support\\Arr::toCssClasses(".toList ++
      "['e' => f()])]]); ?>".toList,
    " @slot('topLeft', null, ['g' => true]) ".toList,
    " @endslot".toList,
    " @slot('footer', null, []) ".toList,
    " @endslot".toList,
    "<?php Illuminate\\View\\AnonymousComponent::resolve([".toList ++
      "'view' => 'cards.default','data' => []]); ?>\n".toList ++
      "@endComponentClass##END-COMPONENT-CLASS##".toList,
    " @endComponentClass##END-COMPONENT-CLASS##".toList,
    "<?php echo Illuminate\\View\\AnonymousComponent::resolve([".toList ++
      "'h' => ''])->render(); ?>".toList]

theorem compiled_eachNode :
    eachNode.map (cardCompiler.compiled Variant.all) = eachOutput.map .ok := by
  decide +kernel

theorem compile_eachNode :
    eachNode.flatMap Node.text =
      "a > b <x-card a=\"1\" :b=\"$x->y\" :$c d @class(['e' => f()])>".toList ++
        "<x-slot:top-left g></x-slot>".toList ++
        "<x-slot name=\"footer\"></x-slot><x-card /></x-card><livewire:card h=\"\" />".toList ∧
    (∃ output : Node → Text,
      (∀ n ∈ eachNode, (cardCompiler.compile Variant.all n.text).outcome = .ok (output n) ∧
        cardCompiler.compiled Variant.all n = .ok (output n)) ∧
      (cardCompiler.compile Variant.all (eachNode.flatMap Node.text)).outcome =
        .ok (eachNode.flatMap output)) ∧
    (cardCompiler.compile Variant.all (eachNode.flatMap Node.text)).outcome =
      .ok eachOutput.flatten := by
  have hres : cardCompiler.Resolves cardName :=
    ⟨⟨.view, "cards.default".toList, "card".toList⟩, rfl, by decide⟩
  have h := compile_flatMap cardCompiler rfl Variant.all eachNode
    (by simp [eachNode, Node.namedSlot, Node.component?, hres])
  refine ⟨by decide +kernel, h, ?_⟩
  obtain ⟨output, houtput, hcompile⟩ := h
  have hmap : (eachNode.map output).map .ok =
      (eachOutput.map .ok : List (Except CompileError Text)) := by
    rw [← compiled_eachNode, List.map_map]
    exact List.map_congr_left fun n hn => ((houtput n hn).2).symm
  have heach : eachNode.map output = eachOutput :=
    List.map_injective_iff.2 (fun _ _ => Except.ok.inj) hmap
  rw [hcompile, List.flatMap_def, heach]

end Compiler

end ComponentTags
