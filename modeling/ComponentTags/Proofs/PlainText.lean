import ComponentTags.Proofs.Frame

/-!
# Text without tags is kept

A tag of any kind, opening or closing, begins with a bracket, perhaps a slash, a gap and a mark
(`TagStart`). A template in which none of these stands is compiled to itself, with an empty record.

1. A text begins like a tag if and only if a mark is the first thing behind the bracket, the slash
   and the blanks (`tagStart_iff`), and so this can be decided.
2. Each of the searches finds something only where a tag begins (`tagStart_of_hit?`,
   `tagStart_of_hit?_slot`, `tagStart_of_slotClosing?`, `tagStart_of_componentClosing?`), and a
   template is nothing but characters to a search that finds nothing (`pieces_of_tagFree`).
3. So each pass leaves the template as it is, and the next pass has the same template before it
   (`runPasses_of_tagFree`).
-/

namespace ComponentTags

open Text

/-! ## Where a tag begins -/

/-- What stands before the name of a component or of a live component. -/
def Tag.allMarks : List Text :=
  [['x', '-'], ['x', ':'], Tag.liveMark]

/-- The text begins with a bracket, perhaps a slash, blanks and a mark. -/
def TagStart (text : Text) : Prop :=
  ∃ slash gap mark rest : Text, (slash = [] ∨ slash = ['/']) ∧ (∀ x ∈ gap, isBlank x = true) ∧
    mark ∈ Tag.allMarks ∧ text = '<' :: (slash ++ (gap ++ (mark ++ rest)))

/-- No tag begins in the template. -/
def TagFree (template : Text) : Prop :=
  ∀ text, text <:+ template → ¬ TagStart text

/-- What is behind a slash, if the text begins with one. -/
def behindSlash : Text → Text
  | '/' :: rest => rest
  | text => text

theorem exists_slash (text : Text) :
    ∃ slash, (slash = [] ∨ slash = ['/']) ∧ text = slash ++ behindSlash text := by
  unfold behindSlash
  split
  · exact ⟨['/'], .inr rfl, rfl⟩
  · exact ⟨[], .inl rfl, rfl⟩

theorem behindSlash_append {slash text : Text} (h : slash = [] ∨ slash = ['/'])
    (ht : text.head? ≠ some '/') : behindSlash (slash ++ text) = text := by
  rcases h with rfl | rfl
  · unfold behindSlash
    split
    · next heq => exact absurd (congrArg List.head? heq) ht
    · rfl
  · rfl

theorem Tag.exists_of_mem_allMarks {mark : Text} (h : mark ∈ allMarks) :
    ∃ x t, mark = x :: t ∧ isBlank x = false ∧ x ≠ '/' := by
  simp only [allMarks, List.mem_cons, List.not_mem_nil, or_false] at h
  rcases h with rfl | rfl | rfl
  · exact ⟨'x', ['-'], rfl, by decide, by decide⟩
  · exact ⟨'x', [':'], rfl, by decide, by decide⟩
  · exact ⟨'l', "ivewire:".toList, by decide, by decide, by decide⟩

theorem tagStart_iff {text : Text} :
    TagStart text ↔ text.head? = some '<' ∧
      ∃ mark ∈ Tag.allMarks, mark <+: (behindSlash text.tail).dropWhile isBlank := by
  constructor
  · rintro ⟨slash, gap, mark, rest, hslash, hgap, hmark, rfl⟩
    obtain ⟨x, t, rfl, hblank, hx⟩ := Tag.exists_of_mem_allMarks hmark
    have hhead : (gap ++ (x :: t ++ rest)).head? ≠ some '/' := by
      cases gap with
      | nil => simpa using hx
      | cons y gap =>
        rintro heq
        obtain rfl : y = '/' := by simpa using heq
        exact absurd (hgap '/' (by simp)) (by decide)
    refine ⟨rfl, x :: t, hmark, rest, ?_⟩
    rw [List.tail_cons, behindSlash_append hslash hhead, List.dropWhile_append_of_pos hgap,
      List.cons_append, List.dropWhile_cons_of_neg (by simp [hblank])]
  · rintro ⟨hhead, mark, hmark, rest, hrest⟩
    obtain ⟨tail, rfl⟩ := List.head?_eq_some_iff.1 hhead
    obtain ⟨slash, hslash, htail⟩ := exists_slash tail
    rw [List.tail_cons] at hrest
    refine ⟨slash, (behindSlash tail).takeWhile isBlank, mark, rest, hslash,
      fun x hx => of_mem_takeWhile hx, hmark, ?_⟩
    rw [hrest, List.takeWhile_append_dropWhile, ← htail]

instance : DecidablePred TagStart := fun _ =>
  have : ∀ rest : Text, Decidable (∃ mark ∈ Tag.allMarks, mark <+: rest) := fun _ =>
    List.decidableBEx _ _
  decidable_of_iff _ tagStart_iff.symm

instance (template : Text) : Decidable (TagFree template) :=
  have : Decidable (∀ text ∈ template.tails, ¬ TagStart text) := List.decidableBAll _ _
  decidable_of_iff (∀ text ∈ template.tails, ¬ TagStart text) <| by
    simp only [TagFree, List.mem_tails]

/-! ## Searches find nothing elsewhere -/

namespace Tag

variable {isGap : Char → Bool} {c d : Cursor} {mark : Text}

theorem tagStart_of_afterBracket? (h : afterBracket? isBlank c = some d) (hmark : mark ∈ allMarks)
    (hd : mark <+: d.rest) : TagStart c.rest := by
  obtain ⟨gap, rest, hr, hgap, -, rfl⟩ := afterBracket?_eq_some_iff.1 h
  rw [show gap.length + 1 = ('<' :: gap).length from rfl,
    Cursor.rest_advance_append (u := '<' :: gap) hr] at hd
  obtain ⟨rest, rfl⟩ := hd
  exact ⟨[], gap, mark, rest, .inl rfl, hgap, hmark, hr⟩

theorem Form.mem_allMarks {k : Form} (h : mark ∈ k.marks) : mark ∈ allMarks := by
  cases k with
  | live => exact List.mem_cons_of_mem _ (List.mem_cons_of_mem _ h)
  | selfClosing | opening =>
    simp only [Form.marks, List.mem_cons, List.not_mem_nil, or_false] at h
    rcases h with rfl | rfl <;> simp [allMarks]

theorem exists_mem_allMarks_of_afterComponentMark? (h : afterComponentMark? c = some d) :
    ∃ mark ∈ allMarks, mark <+: c.rest := by
  obtain ⟨mark, hmark, hr, -⟩ := (Form.mark?_eq_some_iff (k := .opening)).1 h
  exact ⟨mark, Form.mem_allMarks hmark, hr⟩

theorem Form.tagStart_of_hit? {k : Form} {found : Tag × Nat}
    (h : k.grammar.hit? c = some found) : TagStart c.rest := by
  have hb := (Grammar.hit?_eq_some_iff.1 h).1
  rw [k.mayBegin_grammar, Option.isSome_iff_exists] at hb
  obtain ⟨e, he⟩ := hb
  obtain ⟨d, hd, hm⟩ := Option.bind_eq_some_iff.1 he
  obtain ⟨mark, hmark, hr, -⟩ := mark?_eq_some_iff.1 hm
  exact tagStart_of_afterBracket? hd (Form.mem_allMarks hmark) hr

theorem tagStart_of_hit?_slot {found : Tag × Nat} (h : Grammar.slot.hit? c = some found) :
    TagStart c.rest := by
  obtain ⟨e, he⟩ := Option.isSome_iff_exists.1 (Grammar.hit?_eq_some_iff.1 h).1
  simp only [afterSlotMark?, Option.bind_eq_bind, Option.bind_eq_some_iff] at he
  obtain ⟨d, hd, d', hd', -⟩ := he
  obtain ⟨mark, hmark, hr⟩ := exists_mem_allMarks_of_afterComponentMark? hd'
  exact tagStart_of_afterBracket? hd hmark hr

theorem tagStart_of_afterClosingMark? (hGap : ∀ x, isGap x = true → isBlank x = true)
    (h : afterClosingMark? isGap c = some d) : TagStart c.rest := by
  obtain ⟨e, he, hd⟩ := Option.bind_eq_some_iff.1 h
  obtain ⟨⟨rest, hr⟩, rfl⟩ := Cursor.expect?_eq_some_iff.1 he
  obtain ⟨gap, rest', hrest, hgap, -, hskip⟩ :=
    Cursor.exists_skipWhile isGap (c.advance ['<', '/'].length)
  obtain ⟨mark, hmark, hbehind⟩ := exists_mem_allMarks_of_afterComponentMark? hd
  rw [hskip, Cursor.rest_advance_append hrest] at hbehind
  obtain ⟨behind, rfl⟩ := hbehind
  rw [Cursor.rest_advance_append hr.symm] at hrest
  refine ⟨['/'], gap, mark, behind, .inr rfl, fun x hx => hGap x (hgap x hx), hmark, ?_⟩
  rw [← hr, hrest]
  rfl

theorem tagStart_of_slotClosing? {found : Unit × Nat} (h : slotClosing? c = some found) :
    TagStart c.rest := by
  rw [slotClosing?_eq_bind] at h
  obtain ⟨d, hd, -⟩ := Option.bind_eq_some_iff.1 h
  exact tagStart_of_afterClosingMark? (fun _ hx => hx) hd

theorem tagStart_of_componentClosing? {found : Unit × Nat}
    (h : componentClosing? c = some found) : TagStart c.rest := by
  rw [componentClosing?_eq_bind] at h
  obtain ⟨d, hd, -⟩ := Option.bind_eq_some_iff.1 h
  exact tagStart_of_afterClosingMark? (fun _ hx => isBlank_of_isSpace hx) hd

end Tag

/-! ## Passes -/

section Search

variable {α : Type} {hit : Cursor → Option (α × Nat)} {template : Text}

/-- A search that finds something only where a tag begins. -/
theorem pieces_of_tagFree (hhit : ∀ c found, hit c = some found → TagStart c.rest)
    (h : TagFree template) : (Cursor.start template).pieces hit = template.map .plain := by
  refine Cursor.pieces_eq_map_plain fun d hd => ?_
  cases hh : hit d with
  | none => rfl
  | some found => exact absurd (hhit d found hh) (h d.rest hd)

theorem expandM_of_tagFree {m : Type → Type} [Monad m] [LawfulMonad m]
    (hhit : ∀ c found, hit c = some found → TagStart c.rest) (h : TagFree template)
    (f : α → m Text) : Piece.expandM f ((Cursor.start template).pieces hit) = pure template := by
  have hplain := Piece.expandM_plain_append f template []
  rw [List.append_nil, Piece.expandM, map_pure, List.append_nil] at hplain
  rw [pieces_of_tagFree hhit h, hplain]

theorem expand_of_tagFree (hhit : ∀ c found, hit c = some found → TagStart c.rest)
    (h : TagFree template) (f : α → Text) :
    Piece.expand f ((Cursor.start template).pieces hit) = template := by
  rw [Piece.expand_eq_expandM]
  exact expandM_of_tagFree hhit h (m := Id) f

end Search

namespace Compiler

variable (t : Compiler) {template : Text}

theorem runPass_of_tagFree (h : TagFree template) (p : Pass) :
    t.runPass template p = pure template := by
  cases p with
  | live => exact expandM_of_tagFree (fun _ _ => Tag.Form.tagStart_of_hit? (k := .live)) h _
  | slots =>
    have hopen := expandM_of_tagFree (fun _ _ => Tag.tagStart_of_hit?_slot) h t.slotDirective
    have hclose : closeSlots template = template :=
      expand_of_tagFree (fun _ _ => Tag.tagStart_of_slotClosing?) h _
    show closeSlots <$> _ = _
    rw [Tag.Grammar.pieces, hopen, map_pure, hclose]
  | selfClosing =>
    exact expandM_of_tagFree (fun _ _ => Tag.Form.tagStart_of_hit? (k := .selfClosing)) h _
  | opening => exact expandM_of_tagFree (fun _ _ => Tag.Form.tagStart_of_hit? (k := .opening)) h _
  | closing =>
    exact congrArg pure (expand_of_tagFree (fun _ _ => Tag.tagStart_of_componentClosing?) h _)

theorem runPasses_of_tagFree (h : TagFree template) (passes : List Pass) :
    t.runPasses passes template = pure template := by
  induction passes with
  | nil => rfl
  | cons p passes ih => rw [runPasses, t.runPass_of_tagFree h, pure_bind, ih]

/-- **Text without tags is kept.** A template in which no tag begins is compiled to itself by every
compiler and for all variants, and nothing is recorded. -/
theorem compile_of_tagFree (variants : List Variant) (h : TagFree template) :
    (t.compile variants template).outcome = .ok template ∧
      (t.compile variants template).events = [] := by
  have hpure : t.compile variants template = pure template :=
    t.runPasses_of_tagFree h (variants.flatMap Variant.passes)
  rw [hpure]
  exact ⟨rfl, rfl⟩

/-- Brackets before other names, a mark without its bracket, a blank before the slash and a
character of no width before a mark. -/
theorem compile_of_tagFree_almostTags :
    TagFree "a<b x-c <x></div>< /x-d><\u200bx:e><livewire".toList ∧
      (everyClass.compile Variant.all
          "a<b x-c <x></div>< /x-d><\u200bx:e><livewire".toList).outcome =
        .ok "a<b x-c <x></div>< /x-d><\u200bx:e><livewire".toList ∧
      (everyClass.compile Variant.all
          "a<b x-c <x></div>< /x-d><\u200bx:e><livewire".toList).events = [] := by
  have hfree : TagFree "a<b x-c <x></div>< /x-d><\u200bx:e><livewire".toList := by decide
  exact ⟨hfree, everyClass.compile_of_tagFree Variant.all hfree⟩

end Compiler

end ComponentTags
