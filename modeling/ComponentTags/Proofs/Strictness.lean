import ComponentTags.Proofs.Directives
import ComponentTags.Proofs.Recognition

/-!
# Strictness makes no difference to a template

A strict reader refuses a text that is not blank and has no attribute in it. No tag has such a
text for its attributes, and so a template is compiled alike whether the reader is strict or not
(`compile_strict_eq_lenient`).

1. What a search takes for the attributes of a tag is blank or has a character of a name in it,
   by every grammar (`Grammar.blank_or_holdsName`).
2. Writing a text in full keeps it so (`Shorthand.holdsName_expand_iff`), and a text has a token if
   and only if it has a character of a name (`Token.all_eq_nil_iff`). So every reader reads what a
   tag has for attributes (`AttributeReader.read_eq_ok`).
3. Passes that treat the tags they find alike have the same result (`Piece.expandM_congr`), and
   what no tag fails with, no template fails with (`Traced.FailsWith`).
-/

namespace ComponentTags

open Text

/-! ## Characters of names -/

namespace Text

def HoldsName (t : Text) : Prop :=
  ∃ x ∈ t, isAttributeNameChar x = true

variable {s t : Text}

theorem HoldsName.mono (h : HoldsName s) (hst : s ⊆ t) : HoldsName t := by
  obtain ⟨x, hx, hn⟩ := h
  exact ⟨x, hst hx, hn⟩

theorem not_holdsName_of_blank (h : ∀ x ∈ t, isBlank x = true) : ¬ HoldsName t := by
  rintro ⟨x, hx, hn⟩
  have hb := isBlank_of_isAttributeNameChar hn
  rw [h x hx] at hb
  simp at hb

theorem IsRun.holdsName (h : IsRun isAttributeNameChar t) : HoldsName t := by
  obtain ⟨x, s, rfl, hx⟩ := h.exists_cons
  exact ⟨x, by simp, hx⟩

end Text

/-! ## The attributes of a tag -/

namespace Tag

variable {blank : Char → Bool} {g : Grammar} {c : Cursor} {tag : Tag} {a : Text}

theorem Attribute.holdsName (h : Attribute blank g a) : HoldsName a := by
  cases h with
  | name hn => exact hn.holdsName
  | value hn hv => exact hn.holdsName.mono (List.subset_append_left _ _)
  | boundVariable hg hw => exact ⟨':', by simp, by decide⟩
  | classCall hg ht =>
    obtain ⟨arguments, -, rfl⟩ := ht
    exact ⟨'@', by simp, by decide⟩
  | styleCall hg ht =>
    obtain ⟨arguments, -, rfl⟩ := ht
    exact ⟨'@', by simp, by decide⟩
  | bag hg ht =>
    obtain ⟨blanks, inner, -, -, rfl⟩ := ht
    have hm : 'a' ∈ Shorthand.bagName := by decide
    exact ⟨'a', by simp [hm], by decide⟩

/-- What is taken for the attributes of a tag is a list of attributes and blanks. -/
theorem Grammar.exists_attributes_eq (h : g.tagAt? c = some tag) :
    ∃ attributes blanks, AttributeList isBlank g attributes ∧
      (∀ x ∈ blanks, isBlank x = true) ∧ tag.attributes = attributes ++ blanks := by
  obtain ⟨head?, -, h⟩ := List.exists_of_findSome?_eq_some h
  obtain ⟨head, -, h⟩ := Option.bind_eq_some_iff.1 h
  obtain ⟨span, hs, rfl⟩ := Option.map_eq_some_iff.1 h
  rw [Grammar.search_eq_scan] at hs
  obtain ⟨attributes, blanks, rest, ha, hb, hr, hspan, -⟩ := reads_of_scan_eq_some hs
  refine ⟨attributes, blanks, ha, hb, ?_⟩
  show Cursor.upTo _ span.attributesEnd = _
  rw [hspan]
  exact Cursor.upTo_advance_append hr

/-- **Attributes.** What is taken for the attributes of a tag is blank or has a character of a
name in it. -/
theorem Grammar.blank_or_holdsName (h : g.tagAt? c = some tag) :
    (∀ x ∈ tag.attributes, isBlank x = true) ∨ HoldsName tag.attributes := by
  obtain ⟨attributes, blanks, ha, hb, he⟩ := exists_attributes_eq h
  rw [he]
  cases ha with
  | nil => exact Or.inl hb
  | cons hb' ha' hr' =>
    refine Or.inr (ha'.holdsName.mono fun x hx => ?_)
    simp [hx]

end Tag

/-! ## Writing in full and tokens -/

namespace Shorthand

variable {t : Text}

theorem expand_of_not_holdsName (h : ¬ HoldsName t) : expand t = t := by
  have hnone : ∀ {α : Type} {hit : Cursor → Option (α × Nat)} (f : α → Text),
      (∀ d item n, hit d = some (item, n) → HoldsName d.rest) →
      Piece.expand f ((Cursor.start t).pieces hit) = t := by
    intro α hit f hhit
    refine Cursor.expand_pieces_of_none f fun d hd => ?_
    cases hh : hit d with
    | none => rfl
    | some found => exact absurd ((hhit d found.1 found.2 hh).mono hd.subset) h
  have hcalls : ∀ directive helper, expandCalls directive helper t = t := by
    intro directive helper
    refine hnone _ fun d arguments n hd => ?_
    obtain ⟨rest, hr, -⟩ := call?_eq_some_iff.1 hd
    exact ⟨'@', by simp [hr], by decide⟩
  have hvariables : expandVariables t = t := by
    refine hnone _ fun d name n hd => ?_
    obtain ⟨a, rest, hr, -⟩ := boundVariable?_eq_some_iff.1 hd
    exact ⟨':', by simp [hr], by decide⟩
  have hbag : expandBag t = t := by
    refine hnone _ fun d inner n hd => ?_
    obtain ⟨blanks, rest, inner', m, hr, -, -, hb, -⟩ := bagEcho?_eq_some_iff.1 hd
    obtain ⟨gap, rest', rfl, -⟩ := bag?_eq_some_iff.1 hb
    have hm : 'a' ∈ bagName := by decide
    exact ⟨'a', by simp [hr, hm], by decide⟩
  have hbindings : expandBindings t = t := by
    refine hnone _ fun d name n hd => ?_
    obtain ⟨spaces, rest, hr, -⟩ := binding?_eq_some_iff.1 hd
    exact ⟨':', by simp [hr], by decide⟩
  rw [expand, hvariables, hbag, expandClasses, hcalls, expandStyles, hcalls, hbindings]

theorem holdsName_expand_iff : HoldsName (expand t) ↔ HoldsName t := by
  constructor
  · intro h
    by_contra hn
    rw [expand_of_not_holdsName hn] at h
    exact hn h
  · intro h
    by_contra hn
    have hno : ∀ x ∈ expand t, isAttributeNameChar x = false := by
      intro x hx
      by_contra hx'
      exact hn ⟨x, hx, by simpa using hx'⟩
    rw [expand_eq_self hno] at hn
    exact hn h

end Shorthand

theorem Token.all_eq_nil_iff {t : Text} : Token.all t = [] ↔ ¬ HoldsName t := by
  constructor
  · rintro h ⟨x, hx, hn⟩
    rw [Token.not_name_of_items_eq_nil h x hx] at hn
    simp at hn
  · intro h
    rw [List.eq_nil_iff_forall_not_mem]
    intro token hm
    obtain ⟨d, n, hd, hi⟩ := Cursor.exists_hit_of_mem_items hm
    unfold token? at hi
    simp only at hi
    split at hi
    · simp at hi
    · next hname =>
      have hrun : IsRun isAttributeNameChar (d.rest.takeWhile isAttributeNameChar) :=
        ⟨hname, fun x hx => of_mem_takeWhile hx⟩
      exact h (hrun.holdsName.mono fun x hx => hd.subset ((List.takeWhile_prefix _).subset hx))

/-- **Reading.** A reader, strict or not, reads a text that is blank or has a character of a name
in it. -/
theorem AttributeReader.read_eq_ok (reader : AttributeReader) {t : Text}
    (h : (∀ x ∈ t, isBlank x = true) ∨ HoldsName t) :
    reader.read t = .ok (ofTokens reader.echo (Token.all (Shorthand.expand t))) := by
  unfold read
  simp only
  split
  · next hnil =>
    have hno : ¬ HoldsName t := by
      rw [← Shorthand.holdsName_expand_iff, ← Token.all_eq_nil_iff]
      exact hnil
    have hblank : t.all isBlank = true := List.all_eq_true.2 (h.resolve_right hno)
    rw [hnil, Shorthand.expand_of_not_holdsName hno, hblank]
    simp [ofTokens]
  · rfl

/-! ## Failures -/

namespace Traced

variable {α β : Type} {P : CompileError → Prop}

/-- The computation fails with errors of a kind only. -/
def FailsWith (P : CompileError → Prop) (x : Traced α) : Prop :=
  ∀ e, x.outcome = .error e → P e

theorem failsWith_ok {a : α} {events : List Event} : (⟨.ok a, events⟩ : Traced α).FailsWith P := by
  intro e he
  simp at he

theorem failsWith_pure (a : α) : (pure a : Traced α).FailsWith P :=
  failsWith_ok

theorem failsWith_fail {e : CompileError} (h : P e) : (fail e : Traced α).FailsWith P := by
  intro e' he
  obtain rfl : e = e' := by simpa [fail] using he
  exact h

theorem FailsWith.map {x : Traced α} (h : x.FailsWith P) (f : α → β) :
    (f <$> x).FailsWith P := by
  intro e he
  rw [outcome_map] at he
  cases hx : x.outcome with
  | error e' =>
    rw [hx] at he
    obtain rfl : e' = e := by simpa [Except.map] using he
    exact h e' hx
  | ok a => simp [hx, Except.map] at he

theorem FailsWith.bind {x : Traced α} {f : α → Traced β} (hx : x.FailsWith P)
    (hf : ∀ a, (f a).FailsWith P) : (x >>= f).FailsWith P := by
  intro e he
  rw [outcome_bind] at he
  cases ho : x.outcome with
  | error e' =>
    rw [ho] at he
    obtain rfl : e' = e := by simpa [Except.bind] using he
    exact hx e' ho
  | ok a =>
    rw [ho] at he
    exact hf a e he

theorem failsWith_firstSome {f : α → Traced (Option β)} {l : List α}
    (h : ∀ a, (f a).FailsWith P) : (firstSome f l).FailsWith P := by
  induction l with
  | nil => exact failsWith_pure none
  | cons a l ih =>
    refine (h a).bind fun found => ?_
    cases found with
    | none => exact ih
    | some b => exact failsWith_pure (some b)

end Traced

namespace Piece

variable {α : Type} {f f' : α → Traced Text} {ps : List (Piece α)}

/-- What is done at the matches is all that counts. -/
theorem expandM_congr (h : ∀ item ∈ items ps, f item = f' item) : expandM f ps = expandM f' ps := by
  induction ps with
  | nil => rfl
  | cons p ps ih =>
    cases p with
    | plain a => rw [expandM, expandM, ih h]
    | found item =>
      have hrest := ih fun item' h' => h item' (List.mem_cons_of_mem item h')
      rw [expandM, expandM, h item List.mem_cons_self, hrest]

theorem failsWith_expandM {P : CompileError → Prop} (h : ∀ item ∈ items ps, (f item).FailsWith P) :
    (expandM f ps).FailsWith P := by
  induction ps with
  | nil => exact Traced.failsWith_pure []
  | cons p ps ih =>
    cases p with
    | plain a => exact (ih h).map _
    | found item =>
      have hrest := ih fun item' h' => h item' (List.mem_cons_of_mem item h')
      exact (h item List.mem_cons_self).bind fun new => hrest.map _

end Piece

/-- The error says that nothing answers to a tag. -/
def CompileError.IsUnresolved : CompileError → Prop
  | unresolvedTag _ => True
  | unresolvedAlias _ _ => True
  | malformedAttributes _ => False

namespace Resolver

variable (r : Resolver) (tag : Text)

theorem failsWith_hasView {P : CompileError → Prop} (view : Text) :
    (r.hasView view).FailsWith P := by
  unfold hasView
  split
  · exact Traced.failsWith_ok
  · exact Traced.failsWith_ok

theorem failsWith_apply (strategy : Strategy) :
    (r.apply tag strategy).FailsWith CompileError.IsUnresolved := by
  cases strategy with
  | aliased =>
    show (r.byAlias tag).FailsWith _
    unfold byAlias
    split
    · exact Traced.failsWith_pure none
    · split
      · exact Traced.failsWith_pure _
      · refine (r.failsWith_hasView _).bind fun found => ?_
        cases found with
        | true => exact Traced.failsWith_pure _
        | false => exact Traced.failsWith_fail trivial
  | namespacedClass => exact Traced.failsWith_pure _
  | defaultClass => exact Traced.failsWith_pure _
  | anonymousNamespace =>
    have hfirst : (r.firstView (r.namespaceViews tag)).FailsWith CompileError.IsUnresolved := by
      refine Traced.failsWith_firstSome fun view => (r.failsWith_hasView view).bind fun found => ?_
      cases found with
      | true => exact Traced.failsWith_pure _
      | false => exact Traced.failsWith_pure _
    exact hfirst.bind fun view => Traced.failsWith_pure _
  | anonymousPath =>
    have hpath : ∀ path, (r.viewInPath tag path).FailsWith CompileError.IsUnresolved := by
      intro path
      unfold viewInPath
      split
      · exact Traced.failsWith_pure _
      · split
        · exact Traced.failsWith_ok
        · exact Traced.failsWith_ok
    exact (Traced.failsWith_firstSome hpath).bind fun view => Traced.failsWith_pure _
  | mailView => exact Traced.failsWith_pure _

theorem failsWith_resolveBy (strategies : List Strategy) :
    (r.resolveBy strategies tag).FailsWith CompileError.IsUnresolved := by
  induction strategies with
  | nil => exact Traced.failsWith_fail trivial
  | cons strategy strategies ih =>
    refine (r.failsWith_apply tag strategy).bind fun found => ?_
    cases found with
    | none => exact ih
    | some target => exact Traced.failsWith_ok.bind fun _ => Traced.failsWith_pure target

end Resolver

/-! ## Compiling -/

theorem Tag.Grammar.readable_of_mem_items {g : Tag.Grammar} {template : Text} {m : Tag}
    (h : m ∈ Piece.items (g.pieces template)) :
    (∀ x ∈ m.attributes, isBlank x = true) ∨ HoldsName m.attributes := by
  obtain ⟨d, n, -, hd⟩ := Cursor.exists_hit_of_mem_items h
  exact blank_or_holdsName (Tag.Grammar.hit?_eq_some_iff.1 hd).2.1

namespace Compiler

def withStrict (t : Compiler) (strict : Bool) : Compiler :=
  { t with reader := { t.reader with strict } }

theorem failsWith_componentDirective (t : Compiler) (tag : Text) (attributes : Attributes) :
    (t.componentDirective tag attributes).FailsWith CompileError.IsUnresolved :=
  (t.resolver.failsWith_resolveBy tag _).bind fun _ => Traced.failsWith_pure _

section Directives

variable (t : Compiler) {m : Tag}
  (h : (∀ x ∈ m.attributes, isBlank x = true) ∨ HoldsName m.attributes)

include h

theorem slotDirective_withStrict (strict : Bool) :
    (t.withStrict strict).slotDirective m = (t.withStrict false).slotDirective m := by
  simp only [slotDirective, withStrict, AttributeReader.read_eq_ok _ h]

theorem selfClosingDirective_withStrict (strict : Bool) :
    (t.withStrict strict).selfClosingDirective m =
      (t.withStrict false).selfClosingDirective m := by
  simp only [selfClosingDirective, withStrict, AttributeReader.read_eq_ok _ h, componentDirective]

theorem openingDirective_withStrict (strict : Bool) :
    (t.withStrict strict).openingDirective m = (t.withStrict false).openingDirective m := by
  simp only [openingDirective, withStrict, AttributeReader.read_eq_ok _ h, componentDirective]

theorem liveDirective_withStrict (strict : Bool) :
    (t.withStrict strict).liveDirective m = (t.withStrict false).liveDirective m := by
  simp only [liveDirective, withStrict, AttributeReader.read_eq_ok _ h]

theorem failsWith_slotDirective : (t.slotDirective m).FailsWith CompileError.IsUnresolved := by
  rw [slotDirective, AttributeReader.read_eq_ok _ h]
  exact Traced.failsWith_ok.bind fun _ => Traced.failsWith_pure _

theorem failsWith_selfClosingDirective :
    (t.selfClosingDirective m).FailsWith CompileError.IsUnresolved := by
  rw [selfClosingDirective, AttributeReader.read_eq_ok _ h]
  refine Traced.failsWith_ok.bind fun _ => Traced.failsWith_ok.bind fun attributes => ?_
  exact (t.failsWith_componentDirective m.name attributes).bind fun _ => Traced.failsWith_pure _

theorem failsWith_openingDirective :
    (t.openingDirective m).FailsWith CompileError.IsUnresolved := by
  rw [openingDirective, AttributeReader.read_eq_ok _ h]
  refine Traced.failsWith_ok.bind fun _ => Traced.failsWith_ok.bind fun attributes => ?_
  exact t.failsWith_componentDirective m.name attributes

theorem failsWith_liveDirective : (t.liveDirective m).FailsWith CompileError.IsUnresolved := by
  rw [liveDirective, AttributeReader.read_eq_ok _ h]
  split
  · exact Traced.failsWith_pure _
  · exact Traced.failsWith_ok.bind fun _ => Traced.failsWith_pure _

end Directives

/-! ### Passes -/

theorem runPass_withStrict (t : Compiler) (strict : Bool) (template : Text) (p : Pass) :
    (t.withStrict strict).runPass template p = (t.withStrict false).runPass template p := by
  cases p with
  | live =>
    exact Piece.expandM_congr fun m hm =>
      t.liveDirective_withStrict (Tag.Grammar.readable_of_mem_items hm) strict
  | slots =>
    refine congrArg (closeSlots <$> ·) (Piece.expandM_congr fun m hm => ?_)
    exact t.slotDirective_withStrict (Tag.Grammar.readable_of_mem_items hm) strict
  | selfClosing =>
    exact Piece.expandM_congr fun m hm =>
      t.selfClosingDirective_withStrict (Tag.Grammar.readable_of_mem_items hm) strict
  | opening =>
    exact Piece.expandM_congr fun m hm =>
      t.openingDirective_withStrict (Tag.Grammar.readable_of_mem_items hm) strict
  | closing => rfl

theorem runPasses_withStrict (t : Compiler) (strict : Bool) (passes : List Pass)
    (template : Text) :
    (t.withStrict strict).runPasses passes template =
      (t.withStrict false).runPasses passes template := by
  induction passes generalizing template with
  | nil => rfl
  | cons p passes ih =>
    rw [runPasses, runPasses, runPass_withStrict]
    exact congrArg _ (funext ih)

theorem failsWith_runPass (t : Compiler) (template : Text) (p : Pass) :
    (t.runPass template p).FailsWith CompileError.IsUnresolved := by
  cases p with
  | live =>
    exact Piece.failsWith_expandM fun m hm =>
      t.failsWith_liveDirective (Tag.Grammar.readable_of_mem_items hm)
  | slots =>
    refine Traced.FailsWith.map (Piece.failsWith_expandM fun m hm => ?_) closeSlots
    exact t.failsWith_slotDirective (Tag.Grammar.readable_of_mem_items hm)
  | selfClosing =>
    exact Piece.failsWith_expandM fun m hm =>
      t.failsWith_selfClosingDirective (Tag.Grammar.readable_of_mem_items hm)
  | opening =>
    exact Piece.failsWith_expandM fun m hm =>
      t.failsWith_openingDirective (Tag.Grammar.readable_of_mem_items hm)
  | closing => exact Traced.failsWith_pure _

/-- Every pass fails only where nothing answers to a tag, and so do all passes together. -/
theorem failsWith_runPasses (t : Compiler) (passes : List Pass) (template : Text) :
    (t.runPasses passes template).FailsWith CompileError.IsUnresolved := by
  induction passes generalizing template with
  | nil => exact Traced.failsWith_pure template
  | cons p passes ih => exact (t.failsWith_runPass template p).bind ih

/-- **Strictness makes no difference.** Every template is compiled alike, with the same result or
error and the same record, whether the reader is strict or not, and it is never refused for its
attributes. For by every grammar the attributes of a tag are blank, and then there is nothing to
write in full, or they have a character of a name in them, and then they have one and a token
when they are written in full. -/
theorem compile_strict_eq_lenient (t : Compiler) (variants : List Variant) (template : Text) :
    (t.withStrict true).compile variants template =
      (t.withStrict false).compile variants template ∧
    (∀ (strict : Bool) (text : Text),
      ((t.withStrict strict).compile variants template).outcome ≠
        .error (.malformedAttributes text)) ∧
    ∀ (g : Tag.Grammar) (c : Cursor) (tag : Tag), g.tagAt? c = some tag →
      ((∀ x ∈ tag.attributes, isBlank x = true) ∧
          Shorthand.expand tag.attributes = tag.attributes) ∨
        (HoldsName tag.attributes ∧ HoldsName (Shorthand.expand tag.attributes) ∧
          Token.all (Shorthand.expand tag.attributes) ≠ []) := by
  refine ⟨t.runPasses_withStrict true _ template, fun strict text he => ?_,
    fun g c tag htag => ?_⟩
  · exact (t.withStrict strict).failsWith_runPasses _ template _ he
  · rcases Tag.Grammar.blank_or_holdsName htag with hb | hn
    · exact Or.inl ⟨hb, Shorthand.expand_of_not_holdsName (not_holdsName_of_blank hb)⟩
    · have hfull := Shorthand.holdsName_expand_iff.2 hn
      exact Or.inr ⟨hn, hfull, fun hnil => Token.all_eq_nil_iff.1 hnil hfull⟩

/-- A compiler for which every class exists. -/
def everyClass : Compiler where
  resolver := { config := {}, classes := ⟨fun _ => true, fun _ => []⟩, views := fun _ => .ok false }
  reader := ⟨Echo.compile, true⟩

/-- The blank before the attribute is a no-break space, which is no space of ASCII. -/
theorem compile_strict_noBreakSpace :
    (everyClass.withStrict true).compile Variant.all "<x-a\u00a0:b />".toList =
      (everyClass.withStrict false).compile Variant.all "<x-a\u00a0:b />".toList ∧
    ∃ tag, Tag.Grammar.selfClosing.tagAt? (Cursor.start "<x-a\u00a0:b />".toList) = some tag ∧
      (((∀ x ∈ tag.attributes, isBlank x = true) ∧
          Shorthand.expand tag.attributes = tag.attributes) ∨
        (HoldsName tag.attributes ∧ HoldsName (Shorthand.expand tag.attributes) ∧
          Token.all (Shorthand.expand tag.attributes) ≠ [])) := by
  have hlist : Tag.AttributeList isBlank Tag.Grammar.selfClosing (['\u00a0'] ++ [':', 'b'] ++ []) :=
    .cons (by decide) (.name (by decide)) .nil
  have hsome : (Tag.Grammar.selfClosing.tagAt? (Cursor.start "<x-a\u00a0:b />".toList)).isSome :=
    Tag.isSome_tagAt?_of_derives (k := .selfClosing)
      (p := ⟨[], ['x', '-'], ['a'], ['\u00a0'] ++ [':', 'b'] ++ [], [' '], ['/', '>']⟩)
      ⟨by simp, by decide, forall_mem_of_all (by decide), hlist, forall_mem_of_all (by decide), rfl⟩
      (by decide)
  obtain ⟨tag, htag⟩ := Option.isSome_iff_exists.1 hsome
  obtain ⟨hsame, -, hattributes⟩ :=
    compile_strict_eq_lenient everyClass Variant.all "<x-a\u00a0:b />".toList
  exact ⟨hsame, tag, htag, hattributes _ _ tag htag⟩

end Compiler

end ComponentTags
