import ComponentTags.Proofs.Framing
import Mathlib.Data.List.TakeWhile

/-!
# Tags in a longer text

What is found at a place of a text is found there when more text stands before and behind, and
nothing else is found: the search at a place has the same answer in `left ++ text ++ right`, up to
the place of the tag (`FramesHit`). There is no closing bracket in `right`, and for slots no quote.

1. The marks a head begins with are moves that lead to the same place or to none from which a tag
   ends (`FramesStep.mark?`).
2. The heads that are not closable are never completed, and the others are the same in both texts
   (`FramesHead`). The name of a slot is read up to a quote, which is why `right` has none
   (`framesHead_slotNameHead?`).
3. With the scan behind a head this is what is found at a place, for the tags of every form, for
   slots and for both closing tags (`Form.framesHit`, `framesHit_slot`, `framesHit_slotClosing?`,
   `framesHit_componentClosing?`).
-/

namespace ComponentTags

open Text

variable {left right : Text}

/-! ## Moves of a head -/

namespace FramesStep

variable {f : Cursor → Option Cursor} {isGap : Char → Bool}

theorem expect? (mark : Text) (hm : '>' ∉ mark) : FramesStep (·.expect? mark) where
  framed _ _ _ hc := hc.expect?_framed mark fun h => hm (List.mem_of_mem_dropLast h)
  closable _ _ hc hd := hc.expect? hm hd
  text c d hd := by
    rw [(Cursor.expect?_eq_some_iff.1 hd).2, Cursor.text_advance]
  pos_le c d hd := by
    rw [(Cursor.expect?_eq_some_iff.1 hd).2]
    exact c.pos_le_advance _

theorem skipWhile {p : Char → Bool} (hp : p '>' = false) :
    FramesStep fun c => some (c.skipWhile p) where
  framed _ _ _ hc := congrArg some (hc.skipWhile_framed _ _ hp)
  closable _ _ hc hd := Option.some.inj hd ▸ hc.skipWhile hp
  text c _ hd := Option.some.inj hd ▸ c.text_skipWhile p
  pos_le c _ hd := Option.some.inj hd ▸ c.pos_le_advance _

theorem afterBracket? (hg : isGap '>' = false) :
    FramesStep (Tag.afterBracket? isGap) := by
  have h := (expect? ['<'] (by decide)).bind (skipWhile hg)
  have heq : (fun c : Cursor => (c.expect? ['<']).bind fun d => some (d.skipWhile isGap)) =
      Tag.afterBracket? isGap := by
    funext c
    rw [Tag.afterBracket?]
    cases c.expect? ['<'] <;> rfl
  rwa [heq] at h

theorem afterComponentMark? : FramesStep Tag.afterComponentMark? := by
  have h := (expect? ['x', '-'] (by decide)).orElse (expect? ['x', ':'] (by decide))
  have heq : (fun c : Cursor => (c.expect? ['x', '-']).or (c.expect? ['x', ':'])) =
      Tag.afterComponentMark? := by
    funext c
    rw [Tag.afterComponentMark?, Option.orElse_eq_orElse, Option.orElse_eq_or]
  rwa [heq] at h

theorem afterSlotMark? (hg : isGap '>' = false) :
    FramesStep (Tag.afterSlotMark? isGap) :=
  (afterBracket? hg).bind (afterComponentMark?.bind (expect? _ (by decide)))

theorem mark? (k : Tag.Form) : FramesStep k.mark? := by
  cases k with
  | selfClosing => exact afterComponentMark?
  | opening => exact afterComponentMark?
  | live => exact expect? _ (by decide)

theorem afterClosingMark? (hg : isGap '>' = false) :
    FramesStep (Tag.afterClosingMark? isGap) :=
  (expect? _ (by decide)).bind ((skipWhile hg).bind afterComponentMark?)

end FramesStep

namespace Tag

variable {g : Grammar} {c d : Cursor} {head : Head}

theorem pos_lt_of_afterBracket? {isGap : Char → Bool} (h : afterBracket? isGap c = some d) :
    c.pos < d.pos := by
  obtain ⟨gap, rest, hr, -, -, rfl⟩ := afterBracket?_eq_some_iff.1 h
  rw [Cursor.pos_advance (by simp [hr])]
  omega

/-! ## Heads -/

def Head.framed (left right : Text) (head : Head) : Head :=
  { head with stop := head.stop.framed left right }

/-- A head that is the same in a longer text. -/
structure FramesHead (left right : Text) (head? : Cursor → Option Head) : Prop where
  framed : ∀ c : Cursor, c.Closable →
    head? (c.framed left right) = (head? c).map (Head.framed left right)
  text : ∀ c head, head? c = some head → head.stop.text = c.text
  pos_lt : ∀ c head, head? c = some head → c.pos < head.stop.pos

theorem namedHead_framed (hc : c.Closable) :
    namedHead (c.framed left right) = (namedHead c).framed left right := by
  have hup := Cursor.upTo_framed left right (c.text_skipWhile isTagNameChar)
  simp only [namedHead, hc.skipWhile_framed left right (p := isTagNameChar) (by decide), hup]
  rfl

theorem Form.framesHead (k : Form) : FramesHead left right k.head? := by
  have hstep : FramesStep fun c => (afterBracket? isSpace c).bind k.mark? :=
    (FramesStep.afterBracket? (by decide)).bind (FramesStep.mark? k)
  refine ⟨fun c hc => ?_, fun c head hh => ?_, fun c head hh => ?_⟩
  · unfold Form.head?
    rw [hstep.framed left right c hc]
    cases hd : (afterBracket? isSpace c).bind k.mark? with
    | none => rfl
    | some d => exact congrArg some (namedHead_framed (hstep.closable c d hc hd))
  · obtain ⟨d, hd, rfl⟩ := Option.map_eq_some_iff.1 hh
    exact (d.text_skipWhile _).trans (hstep.text c d hd)
  · obtain ⟨d, hd, rfl⟩ := Option.map_eq_some_iff.1 hh
    obtain ⟨e, he, hd⟩ := Option.bind_eq_some_iff.1 hd
    have h₁ := pos_lt_of_afterBracket? he
    have h₂ := (FramesStep.mark? k).pos_le e d hd
    have h₃ : d.pos ≤ (namedHead d).stop.pos := d.pos_le_advance _
    omega

/-! ### Slots -/

theorem hyphenatedLength_append_of_mem {u v : Text} (h : '>' ∈ u) (inWord : Bool) :
    hyphenatedLength inWord (u ++ v) = hyphenatedLength inWord u ∧
      '>' ∈ u.drop (hyphenatedLength inWord u) := by
  induction u generalizing inWord with
  | nil => simp at h
  | cons a u ih =>
    rw [List.cons_append, hyphenatedLength, hyphenatedLength]
    by_cases hw : isWordChar a = true
    · have ha : '>' ≠ a := by
        rintro rfl
        exact absurd hw (by decide)
      obtain ⟨h₁, h₂⟩ := ih (List.mem_of_ne_of_mem ha h) true
      rw [if_pos hw, if_pos hw, h₁]
      exact ⟨rfl, h₂⟩
    · rw [if_neg hw, if_neg hw]
      by_cases hy : (inWord && a == '-') = true
      · have ha : '>' ≠ a := by
          rintro rfl
          simp at hy
        obtain ⟨h₁, h₂⟩ := ih (List.mem_of_ne_of_mem ha h) false
        rw [if_pos hy, if_pos hy, h₁]
        refine ⟨rfl, ?_⟩
        split
        · exact h
        · next n hn =>
          rw [hn] at h₂
          exact h₂
      · rw [if_neg hy, if_neg hy]
        exact ⟨rfl, h⟩

theorem readInlineName_framed (left right : Text) (hc : c.Closable) :
    readInlineName (c.framed left right) =
        ((readInlineName c).1, (readInlineName c).2.framed left right) ∧
      (readInlineName c).2.Closable := by
  unfold readInlineName
  rw [hc.expect?_framed _ (by decide)]
  cases hd : c.expect? [':'] with
  | none => exact ⟨rfl, hc⟩
  | some d =>
    have hclose : d.Closable := hc.expect? (by decide) hd
    obtain ⟨h₁, h₂⟩ := hyphenatedLength_append_of_mem (v := right) hclose false
    have hbound : hyphenatedLength false d.rest ≤ d.rest.length := by
      by_contra hlt
      rw [List.drop_eq_nil_of_le (by omega)] at h₂
      simp at h₂
    simp only [Option.map_some, Cursor.rest_framed, h₁]
    split
    · exact ⟨rfl, hc⟩
    · next n hn =>
      rw [hn] at h₂ hbound
      refine ⟨?_, ?_⟩
      · rw [Cursor.advance_framed hbound, List.take_append_of_le_length hbound]
      · show '>' ∈ (d.advance (n + 1)).rest
        rwa [Cursor.rest_advance]

theorem text_readInlineName (c : Cursor) :
    (readInlineName c).2.text = c.text ∧ c.pos ≤ (readInlineName c).2.pos := by
  unfold readInlineName
  split
  · exact ⟨rfl, Nat.le_refl _⟩
  · next d hd =>
    have hstep := FramesStep.expect? [':'] (by decide)
    split
    · exact ⟨rfl, Nat.le_refl _⟩
    · exact ⟨(d.text_advance _).trans (hstep.text c d hd),
        Nat.le_trans (hstep.pos_le c d hd) (d.pos_le_advance _)⟩

theorem slotHead?_eq_map (c : Cursor) :
    slotHead? c = (afterSlotMark? isSpace c).map fun d =>
      { inlineName := (readInlineName d).1, stop := (readInlineName d).2 } := by
  rw [slotHead?]
  cases afterSlotMark? isSpace c <;> rfl

theorem framesHead_slotHead? (left right : Text) : FramesHead left right slotHead? := by
  have hstep : FramesStep (afterSlotMark? isSpace) :=
    FramesStep.afterSlotMark? (by decide)
  refine ⟨fun c hc => ?_, fun c head hh => ?_, fun c head hh => ?_⟩
  · rw [slotHead?_eq_map, slotHead?_eq_map, hstep.framed left right c hc]
    cases hd : afterSlotMark? isSpace c with
    | none => rfl
    | some d =>
      have hread := (readInlineName_framed left right (hstep.closable c d hc hd)).1
      simp only [Option.map_some, hread]
      rfl
  · rw [slotHead?_eq_map] at hh
    obtain ⟨d, hd, rfl⟩ := Option.map_eq_some_iff.1 hh
    exact (text_readInlineName d).1.trans (hstep.text c d hd)
  · rw [slotHead?_eq_map] at hh
    obtain ⟨d, hd, rfl⟩ := Option.map_eq_some_iff.1 hh
    have h₁ := (text_readInlineName d).2
    obtain ⟨e, he, hd⟩ := Option.bind_eq_some_iff.1 hd
    have h₂ := pos_lt_of_afterBracket? he
    have h₃ := ((FramesStep.afterComponentMark?).bind
      (FramesStep.expect? slotName (by decide))).pos_le e d hd
    show c.pos < (readInlineName d).2.pos
    omega

theorem closable_slotHead? (hc : c.Closable) (hh : slotHead? c = some head) :
    head.stop.Closable := by
  rw [slotHead?_eq_map] at hh
  obtain ⟨d, hd, rfl⟩ := Option.map_eq_some_iff.1 hh
  have hstep : FramesStep (afterSlotMark? isSpace) := FramesStep.afterSlotMark? (by decide)
  exact (readInlineName_framed [] [] (hstep.closable c d hc hd)).2

theorem quotedValue?_append {q : Char} {u v : Text} (hu : u ≠ []) (hv : q ∉ v) :
    Token.quotedValue? q (u ++ v) = Token.quotedValue? q u := by
  obtain ⟨a, rest, rfl⟩ := List.exists_cons_of_ne_nil hu
  unfold Token.quotedValue?
  simp only [List.cons_append]
  by_cases hq : q ∈ rest
  · -- the quote closes before `v`
    have hlt : (rest.takeWhile (· != q)).length < rest.length := by
      refine Nat.lt_of_le_of_ne (List.takeWhile_prefix _).length_le fun h => ?_
      have hall : rest.takeWhile (· != q) = rest := (List.takeWhile_prefix _).eq_of_length h
      rw [← hall] at hq
      simpa using of_mem_takeWhile hq
    have hlt' : (rest.takeWhile (· != q)).length < (rest ++ v).length := by
      rw [List.length_append]
      omega
    rw [takeWhile_append_of_mem hq (by simp)]
    simp only [hlt, hlt']
  · have hall : ∀ w : Text, q ∉ w → w.takeWhile (· != q) = w := fun w hw =>
      List.takeWhile_eq_self_iff.2 fun b hb => by
        simpa using (fun e : b = q => hw (e ▸ hb))
    rw [hall rest hq, hall (rest ++ v) (List.not_mem_append hq hv)]
    simp only [Nat.lt_irrefl, and_false, if_false]

theorem value?_append {u v : Text} (hu : '>' ∈ u) (hv : '"' ∉ v ∧ '\x27' ∉ v) :
    Token.value? (u ++ v) = Token.value? u := by
  have hne : u ≠ [] := List.ne_nil_of_mem hu
  unfold Token.value? Token.bareValue?
  rw [quotedValue?_append hne hv.1, quotedValue?_append hne hv.2,
    takeWhile_append_of_mem hu (by decide)]

theorem readName?_framed (hright : '"' ∉ right ∧ '\x27' ∉ right) (hd : d.Closable)
    (inline : Text) (bound : Bool) :
    readName? inline bound (d.framed left right) =
      (readName? inline bound d).map (Head.framed left right) := by
  unfold readName?
  rw [hd.expect?_framed _ (by decide)]
  cases he : d.expect? "name=".toList with
  | none => rfl
  | some e =>
    have hclose : e.Closable := hd.expect? (by decide) he
    simp only [Option.map_some, Option.bind_some, Cursor.rest_framed, value?_append hclose hright]
    cases hv : Token.value? e.rest with
    | none => rfl
    | some value =>
      simp only [Option.bind_some, Cursor.advance_framed (Token.prefix_of_value? hv).length_le]
      rfl

/-- The attribute that names a slot, right behind the head of the slot. -/
def nameBehind? (head : Head) : Option Head :=
  let d := head.stop.skipWhile isSpace
  if d.pos ≤ head.stop.pos then none
  else
    match d.expect? [':'] with
    | some e => readName? head.inlineName true e
    | none => readName? head.inlineName false d

theorem slotNameHead?_eq_bind (c : Cursor) : slotNameHead? c = (slotHead? c).bind nameBehind? := by
  unfold slotNameHead?
  rw [slotHead?_eq_map]
  cases afterSlotMark? isSpace c with
  | none => rfl
  | some d =>
    simp only [Option.map_some, Option.bind_eq_bind, Option.bind_some, nameBehind?]
    split
    · rfl
    · cases ((readInlineName d).2.skipWhile isSpace).expect? [':'] <;> rfl

theorem nameBehind?_framed (hright : '"' ∉ right ∧ '\x27' ∉ right) (hh : head.stop.Closable) :
    nameBehind? (head.framed left right) = (nameBehind? head).map (Head.framed left right) := by
  have hspace : (head.stop.skipWhile isSpace).Closable := hh.skipWhile (by decide)
  have hskip := hh.skipWhile_framed left right (p := isSpace) (by decide)
  unfold nameBehind? Head.framed
  simp only [hskip, Cursor.pos_framed, Nat.add_le_add_iff_right]
  split
  · rfl
  · rw [hspace.expect?_framed _ (by decide)]
    cases he : (head.stop.skipWhile isSpace).expect? [':'] with
    | none => exact readName?_framed hright hspace _ _
    | some e => exact readName?_framed hright (hspace.expect? (by decide) he) _ _

theorem text_readName? {inline : Text} {bound : Bool} {named : Head}
    (h : readName? inline bound d = some named) :
    named.stop.text = d.text ∧ d.pos ≤ named.stop.pos := by
  obtain ⟨e, he, h⟩ := Option.bind_eq_some_iff.1 h
  obtain ⟨value, -, h⟩ := Option.bind_eq_some_iff.1 h
  obtain rfl := Option.some.inj h
  have hstep := FramesStep.expect? "name=".toList (by decide)
  exact ⟨(e.text_advance _).trans (hstep.text d e he),
    Nat.le_trans (hstep.pos_le d e he) (e.pos_le_advance _)⟩

theorem text_nameBehind? {named : Head} (h : nameBehind? head = some named) :
    named.stop.text = head.stop.text ∧ head.stop.pos ≤ named.stop.pos := by
  have ht : (head.stop.skipWhile isSpace).text = head.stop.text := head.stop.text_skipWhile _
  have hp : head.stop.pos ≤ (head.stop.skipWhile isSpace).pos := head.stop.pos_le_advance _
  unfold nameBehind? at h
  simp only at h
  split at h
  · simp at h
  · split at h
    · next e he =>
      have hstep := FramesStep.expect? [':'] (by decide)
      obtain ⟨h₁, h₂⟩ := text_readName? h
      have h₃ := hstep.pos_le _ e he
      exact ⟨h₁.trans ((hstep.text _ e he).trans ht), by omega⟩
    · obtain ⟨h₁, h₂⟩ := text_readName? h
      exact ⟨h₁.trans ht, by omega⟩

theorem framesHead_slotNameHead? (hright : '"' ∉ right ∧ '\x27' ∉ right) :
    FramesHead left right slotNameHead? := by
  have hslot := framesHead_slotHead? left right
  refine ⟨fun c hc => ?_, fun c named hn => ?_, fun c named hn => ?_⟩
  · rw [slotNameHead?_eq_bind, slotNameHead?_eq_bind, hslot.framed c hc]
    cases hh : slotHead? c with
    | none => rfl
    | some head => exact nameBehind?_framed hright (closable_slotHead? hc hh)
  · rw [slotNameHead?_eq_bind] at hn
    obtain ⟨head, hh, hn⟩ := Option.bind_eq_some_iff.1 hn
    exact (text_nameBehind? hn).1.trans (hslot.text c head hh)
  · rw [slotNameHead?_eq_bind] at hn
    obtain ⟨head, hh, hn⟩ := Option.bind_eq_some_iff.1 hn
    exact Nat.lt_of_lt_of_le (hslot.pos_lt c head hh) (text_nameBehind? hn).2

/-! ## Tags -/

/-- A tag that begins and ends further on. -/
def moved (n : Nat) (tag : Tag) : Tag :=
  { tag with start := tag.start + n, stop := tag.stop + n }

/-- A grammar by which the same tags are found in a longer text. -/
structure Grammar.Framable (left right : Text) (g : Grammar) : Prop where
  mayBegin : ∀ c : Cursor, c.Closable → g.mayBegin (c.framed left right) = g.mayBegin c
  heads : ∀ head? ∈ g.heads, FramesHead left right head?
  ending : FramesEnding g.ending

theorem Form.framable (k : Form) : k.grammar.Framable left right where
  mayBegin c hc := by
    have hstep : FramesStep fun c => (afterBracket? isBlank c).bind k.mark? :=
      (FramesStep.afterBracket? (by decide)).bind (FramesStep.mark? k)
    rw [k.mayBegin_grammar, k.mayBegin_grammar, hstep.framed left right c hc, Option.isSome_map]
  heads head? hm := by
    rw [k.heads_grammar, List.mem_singleton] at hm
    exact hm ▸ k.framesHead
  ending := by
    cases k with
    | selfClosing => exact framesEnding_slashEnd?
    | opening => exact framesEnding_bracketEnd?
    | live => exact framesEnding_eitherEnd?

theorem framable_slot (hright : '"' ∉ right ∧ '\x27' ∉ right) :
    Grammar.slot.Framable left right where
  mayBegin c hc := by
    have hstep : FramesStep (afterSlotMark? isBlank) := FramesStep.afterSlotMark? (by decide)
    show (afterSlotMark? isBlank (c.framed left right)).isSome = (afterSlotMark? isBlank c).isSome
    rw [hstep.framed left right c hc, Option.isSome_map]
  heads head? hm := by
    have hm' : head? = slotNameHead? ∨ head? = slotHead? := by simpa [Grammar.slot] using hm
    rcases hm' with rfl | rfl
    · exact framesHead_slotNameHead? hright
    · exact framesHead_slotHead? left right
  ending := framesEnding_bracketEnd?

namespace Grammar.Framable

variable (hg : g.Framable left right)

include hg

theorem complete?_framed (hright : '>' ∉ right) (hpos : 0 < head.stop.pos) :
    g.complete? (c.framed left right) (head.framed left right) =
      (g.complete? c head).map (moved left.length) := by
  have hscan : g.scan (head.framed left right).stop =
      (g.scan head.stop).map (Span.framed left right) := g.scan_framed hg.ending hright hpos
  unfold Grammar.complete?
  rw [g.search_eq_scan, g.search_eq_scan, hscan]
  cases hs : g.scan head.stop with
  | none => rfl
  | some span =>
    have hup : (head.framed left right).stop.upTo (span.framed left right).attributesEnd =
        head.stop.upTo span.attributesEnd := Cursor.upTo_framed _ _ (g.text_of_scan_eq_some hs).1
    simp only [Option.map_some, hup]
    rfl

/-- A tag that is found lies in the text from its bracket on. -/
theorem closable_and_le_of_tagAt? {tag : Tag} (h : g.tagAt? c = some tag) :
    c.Closable ∧ tag.stop - tag.start ≤ c.rest.length := by
  obtain ⟨head?, hm, h⟩ := List.exists_of_findSome?_eq_some h
  obtain ⟨head, hh, h⟩ := Option.bind_eq_some_iff.1 h
  obtain ⟨span, hs, rfl⟩ := Option.map_eq_some_iff.1 h
  rw [g.search_eq_scan] at hs
  obtain ⟨ht, hp, hend⟩ := g.text_of_scan_eq_some hs
  have htext := (hg.heads head? hm).text c head hh
  have hpos := (hg.heads head? hm).pos_lt c head hh
  have hsuffix := Cursor.suffix_of_text (ht.trans htext) (by omega)
  refine ⟨hsuffix.subset (hg.ending.closable _ _ hend), ?_⟩
  have hlen := span.tagEnd.pos_le_length
  rw [hg.ending.text _ _ hend, ht, htext, ← c.pos_add_length] at hlen
  show span.tagEnd.pos - c.pos ≤ c.rest.length
  omega

theorem tagAt?_framed (hright : '>' ∉ right) (hc : c.Closable) :
    g.tagAt? (c.framed left right) = (g.tagAt? c).map (moved left.length) := by
  unfold Grammar.tagAt?
  rw [List.map_findSome?]
  refine findSome?_congr_of_mem fun head? hm => ?_
  rw [(hg.heads head? hm).framed c hc, Function.comp_apply]
  cases hh : head? c with
  | none => rfl
  | some head =>
    have hpos := (hg.heads head? hm).pos_lt c head hh
    exact hg.complete?_framed hright (by omega)

/-- **Tags.** In a longer text the same tags are found, further on. -/
theorem hit?_framed (hright : '>' ∉ right) (c : Cursor) :
    g.hit? (c.framed left right) = (g.hit? c).map (Prod.map (moved left.length) id) := by
  by_cases hc : c.Closable
  · unfold Grammar.hit?
    rw [hg.mayBegin c hc]
    split
    · rw [hg.tagAt?_framed hright hc, Option.map_map, Option.map_map]
      congr 1
      funext tag
      simp [moved, Nat.add_sub_add_right]
    · rfl
  · -- without a closing bracket nothing is found in either text
    have hnone : ∀ d : Cursor, ¬ d.Closable → g.hit? d = none := by
      intro d hd
      cases hh : g.hit? d with
      | none => rfl
      | some found =>
        have htag := (Grammar.hit?_eq_some_iff.1 hh).2.1
        exact absurd (hg.closable_and_le_of_tagAt? htag).1 hd
    rw [hnone c hc, hnone _ (by rwa [Cursor.closable_framed_iff hright])]
    rfl

end Grammar.Framable

end Tag

/-! ## Searches -/

/-- A search for tags that finds the same in a longer text, where `move` says what becomes of what
it finds. -/
structure FramesHit {α : Type} (left right : Text) (move : α → α)
    (hit : Cursor → Option (α × Nat)) : Prop where
  framed : ∀ c : Cursor, hit (c.framed left right) = (hit c).map (Prod.map move id)
  closable : ∀ c found, hit c = some found → c.Closable
  opens : ∀ c found, hit c = some found → ∃ x, c.Opens x
  le : ∀ c item n, hit c = some (item, n) → n ≤ c.rest.length

namespace Tag

variable {g : Grammar}

theorem Grammar.Framable.framesHit (hg : g.Framable left right) (hright : '>' ∉ right)
    (hopens : ∀ c found, g.hit? c = some found → ∃ x, c.Opens x) :
    FramesHit left right (moved left.length) g.hit? := by
  refine ⟨hg.hit?_framed hright, fun c found h => ?_, hopens, fun c item n h => ?_⟩
  · exact (hg.closable_and_le_of_tagAt? (Grammar.hit?_eq_some_iff.1 h).2.1).1
  · obtain ⟨-, htag, rfl⟩ := Grammar.hit?_eq_some_iff.1 h
    exact (hg.closable_and_le_of_tagAt? htag).2

theorem Form.framesHit (k : Form) (hright : '>' ∉ right) :
    FramesHit left right (moved left.length) k.grammar.hit? :=
  k.framable.framesHit hright fun _ _ h => ⟨_, opens_of_hit? h⟩

theorem framesHit_slot (hright : '>' ∉ right ∧ '"' ∉ right ∧ '\x27' ∉ right) :
    FramesHit left right (moved left.length) Grammar.slot.hit? :=
  (framable_slot hright.2).framesHit hright.1 fun _ _ h => ⟨_, opens_of_hit?_slot h⟩

theorem framesHit_bracket (left : Text) {f : Cursor → Option Cursor} (hf : FramesStep f)
    (hright : '>' ∉ right) (hopens : ∀ c d, f c = some d → c.Opens '/') :
    FramesHit left right id fun c => (f c).bind fun d => (d.expect? ['>']).bind fun e =>
      some ((), e.pos - c.pos) := by
  -- what is found reaches up to a bracket further on in the text
  have hfound : ∀ c found, ((f c).bind fun d => (d.expect? ['>']).bind fun e =>
      some ((), e.pos - c.pos)) = some found →
      c.Closable ∧ c.Opens '/' ∧ found.2 ≤ c.rest.length := by
    intro c found h
    obtain ⟨d, hd, h⟩ := Option.bind_eq_some_iff.1 h
    obtain ⟨e, he, h⟩ := Option.bind_eq_some_iff.1 h
    obtain rfl := Option.some.inj h
    obtain ⟨hp, rfl⟩ := Cursor.expect?_eq_some_iff.1 he
    have hsuffix := Cursor.suffix_of_text (hf.text c d hd) (hf.pos_le c d hd)
    refine ⟨hsuffix.subset (hp.subset (by simp)), hopens c d hd, ?_⟩
    have hlen := (d.advance ['>'].length).pos_le_length
    rw [Cursor.text_advance, hf.text c d hd, ← c.pos_add_length] at hlen
    show (d.advance ['>'].length).pos - c.pos ≤ c.rest.length
    omega
  refine ⟨fun c => ?_, fun c found h => (hfound c found h).1,
    fun c found h => ⟨_, (hfound c found h).2.1⟩, fun c item n h => (hfound c _ h).2.2⟩
  by_cases hc : c.Closable
  · rw [hf.framed left right c hc]
    cases hd : f c with
    | none => rfl
    | some d =>
      have hclose := hf.closable c d hc hd
      simp only [Option.map_some, Option.bind_some, hclose.expect?_framed ['>'] (by simp)]
      cases d.expect? ['>'] with
      | none => rfl
      | some e => simp [Nat.add_sub_add_right]
  · have hnone : ∀ c : Cursor, ¬ c.Closable → ((f c).bind fun d => (d.expect? ['>']).bind fun e =>
        some ((), e.pos - c.pos)) = none := by
      intro c hc
      by_contra h
      obtain ⟨found, h⟩ := Option.ne_none_iff_exists'.1 h
      exact hc (hfound c found h).1
    rw [hnone c hc, hnone _ (by rwa [Cursor.closable_framed_iff hright])]
    rfl

theorem framesHit_slotClosing? (hright : '>' ∉ right) : FramesHit left right id slotClosing? := by
  have hstep : FramesStep fun c => (afterClosingMark? isBlank c).bind fun d =>
      (d.expect? slotName).bind fun d => some (d.skipWhile (· != '>')) :=
    (FramesStep.afterClosingMark? (by decide)).bind
      ((FramesStep.expect? _ (by decide)).bind (FramesStep.skipWhile (by decide)))
  have h := framesHit_bracket left hstep hright fun c d hd => by
    obtain ⟨e, he, -⟩ := Option.bind_eq_some_iff.1 hd
    exact opens_of_afterClosingMark? he
  have heq : slotClosing? = _ := funext fun c => slotClosing?_eq_bind c
  simpa only [heq, Option.bind_assoc, Option.bind_some] using h

theorem framesHit_componentClosing? (hright : '>' ∉ right) :
    FramesHit left right id componentClosing? := by
  have hstep : FramesStep fun c => (afterClosingMark? isSpace c).bind fun d =>
      (some (d.skipWhile isTagNameChar)).bind fun d => some (d.skipWhile isSpace) :=
    (FramesStep.afterClosingMark? (by decide)).bind
      ((FramesStep.skipWhile (by decide)).bind (FramesStep.skipWhile (by decide)))
  have h := framesHit_bracket left hstep hright fun c d hd => by
    obtain ⟨e, he, -⟩ := Option.bind_eq_some_iff.1 hd
    exact opens_of_afterClosingMark? he
  have heq : componentClosing? = _ := funext fun c => componentClosing?_eq_bind c
  simpa only [heq, Option.bind_assoc, Option.bind_some] using h

end Tag

end ComponentTags
