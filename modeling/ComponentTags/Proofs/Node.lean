import ComponentTags.Proofs.SlotHit

/-!
# Templates as lists of nodes

A node is a stretch of a template: text without tags, or one tag in writing. At a node, a search
for the tags of one kind finds the node itself, if it is of that kind (`found_slot` and the lemmas
that follow it), and misses it otherwise, whatever follows the node. Where two kinds of tags begin
alike, the name or the ending tells them apart (`slot_missed`, `slotClosing_missed`,
`selfClosing_missed`).
-/

namespace ComponentTags

open Text TagAttribute

/-- The kinds of tags that a node can be. -/
inductive Node.Kind where
  | slot
  | slotClosing
  | selfClosing
  | opening
  | closing
  | live
  deriving DecidableEq

/-- A stretch of a template. The name of a slot stands behind a colon or in its first attribute. -/
inductive Node where
  | plain (text : Text) (quiet : Quiet text)
  | slot (name : Option SlotName) (attributes : List (TagAttribute false))
  | slotClosing
  | selfClosing (name : TagName) (attributes : List (TagAttribute true))
  | opening (name : TagName) (attributes : List (TagAttribute true))
  | closing (name : TagName)
  | live (name : TagName) (attributes : List (TagAttribute false))

namespace Node

def namedSlot (name : Text) (hq : '"' ∉ name) (ht : '<' ∉ name)
    (attributes : List (TagAttribute false)) : Node :=
  .slot none (⟨.literal "name".toList name, ⟨by decide, hq⟩, ht⟩ :: attributes)

def kind? : Node → Option Kind
  | plain _ _ => none
  | slot _ _ => some .slot
  | slotClosing => some .slotClosing
  | selfClosing _ _ => some .selfClosing
  | opening _ _ => some .opening
  | closing _ => some .closing
  | live _ _ => some .live

/-- The component that the node stands for or opens, if it does. -/
def component? : Node → Option TagName
  | selfClosing name _ => some name
  | opening name _ => some name
  | _ => none

def text : Node → Text
  | plain t _ => t
  | slot name attributes => Tag.slotHead name ++ printed attributes ++ ['>']
  | slotClosing => Tag.closingMark ++ Tag.slotName ++ ['>']
  | selfClosing name attributes =>
    '<' :: (['x', '-'] ++ name.text) ++ (printed attributes ++ [' ']) ++ ['/', '>']
  | opening name attributes => '<' :: (['x', '-'] ++ name.text) ++ printed attributes ++ ['>']
  | closing name => Tag.closingMark ++ name.text ++ ['>']
  | live name attributes =>
    '<' :: (Tag.liveMark ++ name.text) ++ (printed attributes ++ [' ']) ++ ['/', '>']

/-- The character behind the bracket of a tag. -/
def Kind.initial : Kind → Char
  | slot => 'x'
  | slotClosing => '/'
  | selfClosing => 'x'
  | opening => 'x'
  | closing => '/'
  | live => 'l'

variable {n : Node} {k : Kind} {c : Cursor} {v : Text}

theorem not_mem_tagName (name : TagName) : '<' ∉ name.text :=
  Written.not_mem_of_isRun name.isRun (by decide)

theorem not_mem_withColon (name : Option SlotName) : '<' ∉ SlotName.withColon name := by
  cases name with
  | none => exact List.not_mem_nil
  | some name =>
    refine List.not_mem_cons_of_ne_of_not_mem (by decide) fun h => ?_
    exact absurd (name.hyphenated.isTagNameChar _ h) (by decide)

theorem exists_text_eq (h : n.kind? = some k) :
    ∃ t, n.text = '<' :: k.initial :: t ∧ '<' ∉ t := by
  cases n with
  | plain t ht => simp [kind?] at h
  | slot name attributes =>
    obtain rfl : Kind.slot = k := by simpa [kind?] using h
    refine ⟨('-' :: Tag.slotName) ++ SlotName.withColon name ++ printed attributes ++ ['>'],
      rfl, ?_⟩
    exact List.not_mem_append (List.not_mem_append (List.not_mem_append (by decide)
      (not_mem_withColon name)) (not_mem_printed attributes)) (by decide)
  | slotClosing =>
    obtain rfl : Kind.slotClosing = k := by simpa [kind?] using h
    exact ⟨'x' :: '-' :: Tag.slotName ++ ['>'], rfl, by decide⟩
  | selfClosing name attributes =>
    obtain rfl : Kind.selfClosing = k := by simpa [kind?] using h
    refine ⟨('-' :: name.text) ++ (printed attributes ++ [' ']) ++ ['/', '>'], rfl, ?_⟩
    exact List.not_mem_append (List.not_mem_append
      (List.not_mem_cons_of_ne_of_not_mem (by decide) (not_mem_tagName name))
      (List.not_mem_append (not_mem_printed attributes) (by decide))) (by decide)
  | opening name attributes =>
    obtain rfl : Kind.opening = k := by simpa [kind?] using h
    refine ⟨('-' :: name.text) ++ printed attributes ++ ['>'], rfl, ?_⟩
    exact List.not_mem_append (List.not_mem_append
      (List.not_mem_cons_of_ne_of_not_mem (by decide) (not_mem_tagName name))
      (not_mem_printed attributes)) (by decide)
  | closing name =>
    obtain rfl : Kind.closing = k := by simpa [kind?] using h
    refine ⟨('x' :: '-' :: name.text) ++ ['>'], rfl, ?_⟩
    exact List.not_mem_append (List.not_mem_cons_of_ne_of_not_mem (by decide)
      (List.not_mem_cons_of_ne_of_not_mem (by decide) (not_mem_tagName name))) (by decide)
  | live name attributes =>
    obtain rfl : Kind.live = k := by simpa [kind?] using h
    refine ⟨("ivewire:".toList ++ name.text) ++ (printed attributes ++ [' ']) ++ ['/', '>'],
      rfl, ?_⟩
    exact List.not_mem_append (List.not_mem_append
      (List.not_mem_append (by decide) (not_mem_tagName name))
      (List.not_mem_append (not_mem_printed attributes) (by decide))) (by decide)

/-! ## What is found -/

theorem found_slot {name : Option SlotName} {attributes : List (TagAttribute false)}
    (hr : c.rest = (slot name attributes).text ++ v) :
    ∃ stop, Tag.Grammar.slot.hit? c =
      some (Tag.ofSlot name attributes c.pos stop, (slot name attributes).text.length) :=
  Tag.hit?_slot hr

theorem found_selfClosing {name : TagName} {attributes : List (TagAttribute true)}
    (hr : c.rest = (selfClosing name attributes).text ++ v) :
    ∃ stop, Tag.Grammar.selfClosing.hit? c =
      some (Tag.component .selfClosing name.text (printed attributes ++ [' ']) c.pos stop,
        (selfClosing name attributes).text.length) :=
  Tag.Form.hit?_eq_some (k := .selfClosing) (Tag.Form.takes fun _ => ⟨rfl, rfl⟩)
    (by simp [Tag.Form.marks]) name.isRun.2 (forall_mem_of_all (by decide)) rfl hr

/-- A tag that opens a component is found, if its name does not make an arrow of its end. -/
theorem opening_hit?_eq_some {name : Text} (hname : IsRun isTagNameChar name)
    (hhyphen : name.getLast? ≠ some '-') (attributes : List (TagAttribute true))
    (hr : c.rest = '<' :: (['x', '-'] ++ name) ++ printed attributes ++ ['>'] ++ v) :
    ∃ stop, Tag.Grammar.opening.hit? c =
      some (Tag.component .opening name (printed attributes) c.pos stop,
        ('<' :: (['x', '-'] ++ name) ++ printed attributes ++ ['>']).length) := by
  have hlast : ∀ x ∈ ('<' :: (['x', '-'] ++ name) ++ printed attributes).getLast?,
      x ≠ '/' ∧ x ≠ '=' ∧ x ≠ '-' := by
    refine getLast_append_printed attributes (by simp) fun x hx => ?_
    have hl : ('<' :: (['x', '-'] ++ name)).getLast? = name.getLast? := by
      rw [List.cons_append, List.cons_append, List.nil_append, List.getLast?_cons_cons,
        List.getLast?_cons_cons, List.getLast?_cons_of_ne_nil hname.1]
    rw [hl] at hx
    have hw := hname.2 x (List.mem_of_getLast? hx)
    refine ⟨?_, ?_, fun e => hhyphen (e ▸ hx)⟩ <;> rintro rfl <;> exact absurd hw (by decide)
  rw [← List.append_nil (printed attributes)] at hlast hr
  have h := Tag.Form.hit?_eq_some (k := .opening) (Tag.Form.takes fun _ => ⟨rfl, rfl⟩)
    (by simp [Tag.Form.marks]) hname.2 (List.forall_mem_nil _) ⟨rfl, hlast⟩ hr
  rwa [List.append_nil] at h

theorem found_opening {name : TagName} {attributes : List (TagAttribute true)}
    (hr : c.rest = (opening name attributes).text ++ v) :
    ∃ stop, Tag.Grammar.opening.hit? c =
      some (Tag.component .opening name.text (printed attributes) c.pos stop,
        (opening name attributes).text.length) :=
  opening_hit?_eq_some name.isRun name.no_hyphen attributes hr

theorem found_live {name : TagName} {attributes : List (TagAttribute false)}
    (hr : c.rest = (live name attributes).text ++ v) :
    ∃ stop, Tag.Grammar.live.hit? c =
      some (Tag.component .selfClosing name.text (printed attributes ++ [' ']) c.pos stop,
        (live name attributes).text.length) :=
  Tag.Form.hit?_eq_some (k := .live) (Tag.Form.takes (by simp))
    (by simp [Tag.Form.marks]) name.isRun.2 (forall_mem_of_all (by decide)) (Or.inl rfl) hr

/-! ## What is missed -/

theorem not_begins_slotName (name : TagName) {t : Text}
    (ht : ∃ y w, t = y :: w ∧ (y = ' ' ∨ y = '>')) : ¬ Tag.slotName <+: name.text ++ t := by
  obtain ⟨y, w, rfl, hy⟩ := ht
  have hm : y ∉ Tag.slotName := by rcases hy with rfl | rfl <;> decide
  exact fun h => name.no_slot (prefix_of_prefix_append_cons hm h)

theorem exists_printed_append {component : Bool} (l : List (TagAttribute component)) {x : Char}
    (hx : x = ' ' ∨ x = '>') (w : Text) :
    ∃ y t, printed l ++ x :: w = y :: t ∧ (y = ' ' ∨ y = '>') := by
  cases l with
  | nil => exact ⟨x, w, rfl, hx⟩
  | cons a l => exact ⟨' ', _, rfl, Or.inl rfl⟩

theorem slot_missed (hk : n.kind? = some k) (hne : k ≠ .slot) (hi : k.initial = 'x')
    (hr : c.rest = n.text ++ v) : Tag.Grammar.slot.hit? c = none := by
  cases n with
  | selfClosing name attributes =>
    have hr₁ : c.rest = '<' :: 'x' :: '-' ::
        (name.text ++ (printed attributes ++ ' ' :: '/' :: '>' :: v)) := by
      simp [hr, text]
    exact Tag.hit?_slot_eq_none hr₁
      (not_begins_slotName name (exists_printed_append attributes (Or.inl rfl) _))
  | opening name attributes =>
    have hr₁ : c.rest = '<' :: 'x' :: '-' :: (name.text ++ (printed attributes ++ '>' :: v)) := by
      simp [hr, text]
    exact Tag.hit?_slot_eq_none hr₁
      (not_begins_slotName name (exists_printed_append attributes (Or.inr rfl) _))
  | _ => cases k <;> simp [kind?, Kind.initial] at hk hi hne

theorem slotClosing_missed (hk : n.kind? = some k) (hne : k ≠ .slotClosing)
    (hi : k.initial = '/') (hr : c.rest = n.text ++ v) : Tag.slotClosing? c = none := by
  cases n with
  | closing name =>
    have hr₁ : c.rest = Tag.closingMark ++ (name.text ++ '>' :: v) := by simp [hr, text]
    exact Tag.slotClosing?_eq_none hr₁ (not_begins_slotName name ⟨'>', v, rfl, Or.inr rfl⟩)
  | _ => cases k <;> simp [kind?, Kind.initial] at hk hi hne

theorem selfClosing_hit?_eq_none {name : Text} (hname : ∀ x ∈ name, isTagNameChar x = true)
    (attributes : List (TagAttribute true))
    (hr : c.rest = '<' :: (['x', '-'] ++ name) ++ printed attributes ++ ['>'] ++ v) :
    Tag.Grammar.selfClosing.hit? c = none := by
  have hr₁ : c.rest = '<' :: (['x', '-'] ++ name) ++
      (printed attributes ++ ([] ++ '>' :: v)) := by
    simp [hr]
  have hr₂ : c.rest = ('<' :: (['x', '-'] ++ name) ++ (printed attributes ++ [])) ++
      '>' :: v := by
    simp [hr]
  have he : Tag.Form.selfClosing.grammar.ending (c.advance ('<' :: (['x', '-'] ++ name) ++
      (printed attributes ++ [])).length) = none := by
    show Cursor.expect? _ ['/', '>'] = none
    rw [Cursor.expect?_eq_none_iff, Cursor.rest_advance_append hr₂]
    simp
  have h := Tag.Form.hit?_printed (k := .selfClosing) (Tag.Form.takes fun _ => ⟨rfl, rfl⟩)
    (by simp [Tag.Form.marks]) hname (List.forall_mem_nil _) (Or.inr rfl) hr₁
  rw [he] at h
  exact h

theorem selfClosing_missed (hk : n.kind? = some k) (hne : k ≠ .selfClosing) (hs : k ≠ .slot)
    (hi : k.initial = 'x') (hr : c.rest = n.text ++ v) :
    Tag.Grammar.selfClosing.hit? c = none := by
  cases n with
  | opening name attributes => exact selfClosing_hit?_eq_none name.isRun.2 attributes hr
  | _ => cases k <;> simp [kind?, Kind.initial] at hk hi hne hs

end Node

end ComponentTags
