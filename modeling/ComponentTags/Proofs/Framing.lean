import ComponentTags.Proofs.SlotHit

/-!
# Reading in a longer text

A tag that is found in a text is found at the same place when more text stands before and behind:
what is read in a text and then framed by `left` and `right` is what is read in
`left ++ text ++ right`, if there is no closing bracket and no quote in `right`.

1. A tag can only end at a closing bracket, and `right` has none. So a move of the cursor that
   goes on into `right` leads to a place from which no tag ends (`Closable`), and all other moves
   are the same in both texts (`FramesStep`).
2. The ends of an attribute are the same up to those that are not closable (`SameEnds`), and so
   the scan from any place has the same answer in both texts (`Grammar.scan_framed`).
-/

namespace ComponentTags

open Text

namespace Text

variable {p : Char → Bool} {u v mark : Text} {x : Char}

theorem takeWhile_append_of_mem (hx : x ∈ u) (hp : p x = false) :
    (u ++ v).takeWhile p = u.takeWhile p := by
  have hlen : (u.takeWhile p).length ≠ u.length := by
    intro h
    have hu : u.takeWhile p = u := (List.takeWhile_prefix p).eq_of_length h
    rw [← hu] at hx
    rw [of_mem_takeWhile hx] at hp
    simp at hp
  rw [List.takeWhile_append, if_neg hlen]

/-- A mark that has a character at its end at most does not go on behind that character. -/
theorem prefix_append_iff_of_mem (hx : x ∈ u) (hm : x ∉ mark.dropLast) :
    mark <+: u ++ v ↔ mark <+: u := by
  refine ⟨fun h => ?_, fun h => h.trans (List.prefix_append u v)⟩
  rcases List.prefix_or_prefix_of_prefix h (List.prefix_append u v) with h | ⟨w, rfl⟩
  · exact h
  · rcases List.eq_nil_or_concat w with rfl | ⟨w, a, rfl⟩
    · simp
    · rw [List.concat_eq_append, ← List.append_assoc, List.dropLast_concat] at hm
      exact absurd (List.mem_append_left w hx) hm

end Text

/-! ## Cursors in a longer text -/

namespace Cursor

variable {c d : Cursor} {p : Char → Bool} {left right u v mark : Text} {n : Nat}

/-- The same place with more text before and behind. -/
def framed (left right : Text) (c : Cursor) : Cursor where
  before := c.before ++ left.reverse
  rest := c.rest ++ right
  pos := c.pos + left.length
  pos_eq := by simp [c.pos_eq]

@[simp] theorem rest_framed : (c.framed left right).rest = c.rest ++ right := rfl

@[simp] theorem pos_framed : (c.framed left right).pos = c.pos + left.length := rfl

theorem text_framed : (c.framed left right).text = left ++ c.text ++ right := by
  simp [framed, text]

theorem start_advance_eq_framed (left template right : Text) :
    (start (left ++ (template ++ right))).advance left.length =
      (start template).framed left right := by
  refine ext_of_text ?_ ?_
  · simp [text_framed]
  · rw [pos_advance_append (v := template ++ right) rfl]
    simp

theorem advance_framed (h : n ≤ c.rest.length) :
    (c.framed left right).advance n = (c.advance n).framed left right := by
  refine ext_of_text ?_ ?_
  · simp [text_framed]
  · rw [pos_advance (by rw [rest_framed, List.length_append]; omega), pos_framed, pos_framed,
      pos_advance h]
    omega

theorem steps_framed (h : n ≤ c.rest.length) :
    (c.framed left right).steps n = (c.steps n).map (framed left right) := by
  induction n generalizing c with
  | zero => rfl
  | succ n ih =>
    have hnext : (c.framed left right).next = c.next.framed left right :=
      advance_framed (n := 1) (by omega)
    have hlen : n ≤ c.next.rest.length := by
      rw [rest_next, List.length_drop]
      omega
    rw [steps, steps, hnext, ih hlen, List.map_cons]

theorem upTo_framed (left right : Text) (ht : d.text = c.text) :
    (c.framed left right).upTo (d.framed left right) = c.upTo d := by
  have hd := d.pos_le_length
  have hc := c.pos_add_length
  rw [ht] at hd
  have hpos : d.pos + left.length - (c.pos + left.length) = d.pos - c.pos := by omega
  rw [upTo, upTo, pos_framed, pos_framed, hpos, rest_framed,
    List.take_append_of_le_length (by omega)]

/-! ## Places before a closing bracket -/

/-- A closing bracket is still to come. -/
def Closable (c : Cursor) : Prop :=
  '>' ∈ c.rest

theorem closable_framed_iff (hright : '>' ∉ right) :
    (c.framed left right).Closable ↔ c.Closable := by
  simp [Closable, hright]

theorem Closable.advance (h : c.Closable) (hr : c.rest = u ++ v) (hu : '>' ∉ u) :
    (c.advance u.length).Closable := by
  unfold Closable at h ⊢
  rw [hr, List.mem_append] at h
  rw [rest_advance_append hr]
  exact h.resolve_left hu

theorem Closable.skipWhile (h : c.Closable) (hp : p '>' = false) : (c.skipWhile p).Closable := by
  obtain ⟨u, v, hr, hu, -, hs⟩ := c.exists_skipWhile p
  rw [hs]
  refine h.advance hr fun hm => ?_
  rw [hu _ hm] at hp
  simp at hp

theorem Closable.skipWhile_framed (h : c.Closable) (left right : Text) (hp : p '>' = false) :
    (c.framed left right).skipWhile p = (c.skipWhile p).framed left right := by
  rw [Cursor.skipWhile, rest_framed, takeWhile_append_of_mem h hp]
  exact advance_framed (List.takeWhile_prefix p).length_le

theorem Closable.expect?_framed (h : c.Closable) (mark : Text) (hm : '>' ∉ mark.dropLast) :
    (c.framed left right).expect? mark = (c.expect? mark).map (framed left right) := by
  by_cases hp : mark <+: c.rest
  · rw [expect?_eq_some_iff.2 ⟨(prefix_append_iff_of_mem h hm).2 hp, rfl⟩,
      expect?_eq_some_iff.2 ⟨hp, rfl⟩, advance_framed hp.length_le]
    rfl
  · rw [expect?_eq_none_iff.2 fun h' => hp ((prefix_append_iff_of_mem h hm).1 h'),
      expect?_eq_none_iff.2 hp]
    rfl

theorem Closable.expect? (h : c.Closable) (hm : '>' ∉ mark) (hd : c.expect? mark = some d) :
    d.Closable := by
  obtain ⟨⟨rest, hr⟩, rfl⟩ := expect?_eq_some_iff.1 hd
  exact h.advance hr.symm hm

theorem pos_le_advance (c : Cursor) (n : Nat) : c.pos ≤ (c.advance n).pos := by
  have h₁ := c.pos_add_length
  have h₂ := (c.advance n).pos_add_length
  rw [text_advance, rest_advance, List.length_drop] at h₂
  omega

/-- Further on in a text there is less of it to come. -/
theorem suffix_of_text (ht : d.text = c.text) (hp : c.pos ≤ d.pos) : d.rest <:+ c.rest := by
  have hc := c.pos_add_length
  have hd := d.pos_add_length
  rw [ht] at hd
  have h₁ : d.rest <:+ c.text := ht ▸ List.suffix_append _ _
  have h₂ : c.rest <:+ c.text := List.suffix_append _ _
  exact List.suffix_of_suffix_length_le h₁ h₂ (by omega)

end Cursor

/-! ## Moves -/

/-- A move of the cursor that goes the same way in a longer text, and past no closing bracket. -/
structure FramesStep (f : Cursor → Option Cursor) : Prop where
  framed : ∀ (left right : Text) (c : Cursor), c.Closable →
    f (c.framed left right) = (f c).map (·.framed left right)
  closable : ∀ c d : Cursor, c.Closable → f c = some d → d.Closable
  text : ∀ c d : Cursor, f c = some d → d.text = c.text
  pos_le : ∀ c d : Cursor, f c = some d → c.pos ≤ d.pos

namespace FramesStep

variable {f g : Cursor → Option Cursor}

theorem bind (hf : FramesStep f) (hg : FramesStep g) :
    FramesStep fun c => (f c).bind g where
  framed left right c hc := by
    rw [hf.framed left right c hc]
    cases hd : f c with
    | none => rfl
    | some d => exact hg.framed left right d (hf.closable c d hc hd)
  closable c e hc he := by
    obtain ⟨d, hd, he⟩ := Option.bind_eq_some_iff.1 he
    exact hg.closable d e (hf.closable c d hc hd) he
  text c e he := by
    obtain ⟨d, hd, he⟩ := Option.bind_eq_some_iff.1 he
    exact (hg.text d e he).trans (hf.text c d hd)
  pos_le c e he := by
    obtain ⟨d, hd, he⟩ := Option.bind_eq_some_iff.1 he
    exact Nat.le_trans (hf.pos_le c d hd) (hg.pos_le d e he)

theorem orElse (hf : FramesStep f) (hg : FramesStep g) :
    FramesStep fun c => (f c).or (g c) where
  framed left right c hc := by
    rw [hf.framed left right c hc, hg.framed left right c hc]
    cases f c <;> rfl
  closable c d hc hd := by
    rcases Option.or_eq_some_iff.1 hd with hd | ⟨-, hd⟩
    · exact hf.closable c d hc hd
    · exact hg.closable c d hc hd
  text c d hd := by
    rcases Option.or_eq_some_iff.1 hd with hd | ⟨-, hd⟩
    · exact hf.text c d hd
    · exact hg.text c d hd
  pos_le c d hd := by
    rcases Option.or_eq_some_iff.1 hd with hd | ⟨-, hd⟩
    · exact hf.pos_le c d hd
    · exact hg.pos_le c d hd

end FramesStep

/-! ## The ends of an attribute -/

namespace Tag

variable {g : Grammar} {left right directive : Text} {c d e : Cursor} {l₁ l₂ l₁' l₂' : List Cursor}
  {P : Text → Prop} {ends : Cursor → List Cursor}

/-- The places of a list from which a tag can still end. -/
def closables (l : List Cursor) : List Cursor :=
  l.filter fun e => e.rest.contains '>'

theorem mem_closables {l : List Cursor} : e ∈ closables l ↔ e ∈ l ∧ e.Closable := by
  simp [closables, Cursor.Closable]

/-- The places of the first list are those of the second one in a longer text, apart from places
from which no tag ends. -/
def SameEnds (left right : Text) (l' l : List Cursor) : Prop :=
  closables l' = (closables l).map (·.framed left right)

theorem SameEnds.append (h₁ : SameEnds left right l₁' l₁) (h₂ : SameEnds left right l₂' l₂) :
    SameEnds left right (l₁' ++ l₂') (l₁ ++ l₂) := by
  unfold SameEnds closables at h₁ h₂ ⊢
  rw [List.filter_append, List.filter_append, List.map_append, h₁, h₂]

theorem sameEnds_nil : SameEnds left right [] [] :=
  rfl

theorem sameEnds_map (hright : '>' ∉ right) (l : List Cursor) :
    SameEnds left right (l.map (·.framed left right)) l := by
  unfold SameEnds closables
  rw [List.filter_map]
  congr 1
  refine List.filter_congr fun e _ => ?_
  simp [hright]

/-- What is read up to a place from which a tag can end is read inside the shorter text. -/
theorem reads_framed_iff (hright : '>' ∉ right) :
    (c.framed left right).Reads P e ∧ e.Closable ↔
      ∃ d, (c.Reads P d ∧ d.Closable) ∧ d.framed left right = e := by
  constructor
  · rintro ⟨⟨t, rest, ht, hr, rfl⟩, he⟩
    have hrest : ((c.framed left right).advance t.length).rest = rest :=
      Cursor.rest_advance_append hr
    rw [Cursor.rest_framed] at hr
    rw [Cursor.Closable, hrest] at he
    rcases List.append_eq_append_iff.1 hr with ⟨w, -, hw⟩ | ⟨w, hc, rfl⟩
    · -- the bracket would stand in `right`
      exact absurd (hw ▸ List.mem_append_right w he) hright
    · refine ⟨c.advance t.length, ⟨⟨t, w, ht, hc, rfl⟩, ?_⟩, ?_⟩
      · rw [Cursor.Closable, Cursor.rest_advance_append hc]
        exact (List.mem_append.1 he).resolve_right hright
      · exact (Cursor.advance_framed (by simp [hc])).symm
  · rintro ⟨_, ⟨⟨t, rest, ht, hr, rfl⟩, hd⟩, rfl⟩
    refine ⟨⟨t, rest ++ right, ht, by simp [hr], ?_⟩, (Cursor.closable_framed_iff hright).2 hd⟩
    exact (Cursor.advance_framed (by simp [hr])).symm

theorem eq_of_mem_iff (h₁ : l₁.length ≤ 1) (h₂ : l₂.length ≤ 1) (h : ∀ e, e ∈ l₁ ↔ e ∈ l₂) :
    l₁ = l₂ := by
  match l₁, l₂ with
  | [], [] => rfl
  | [], b :: _ => simpa using h b
  | a :: _, [] => simpa using h a
  | [a], [b] => simpa using h a

/-- Where one text at most is read, and any text of a kind, it is read alike. -/
theorem sameEnds_of_reads (hright : '>' ∉ right) (hmem : ∀ c e, e ∈ ends c ↔ c.Reads P e)
    (hone : ∀ c, (ends c).length ≤ 1) (c : Cursor) :
    SameEnds left right (ends (c.framed left right)) (ends c) := by
  have hlen : ∀ c, (closables (ends c)).length ≤ 1 := fun c =>
    Nat.le_trans (List.length_filter_le _ _) (hone c)
  refine eq_of_mem_iff (hlen _) (by simpa using hlen c) fun e => ?_
  rw [mem_closables, hmem, reads_framed_iff hright, List.mem_map]
  simp only [mem_closables, hmem]

theorem sameEnds_callEnds (hright : '>' ∉ right) (directive : Text) (c : Cursor) :
    SameEnds left right (callEnds directive (c.framed left right)) (callEnds directive c) := by
  refine sameEnds_of_reads hright (fun c e => mem_callEnds_iff) (fun c => ?_) c
  unfold callEnds
  split <;> simp

theorem sameEnds_bagEnds (hright : '>' ∉ right) (c : Cursor) :
    SameEnds left right (bagEnds (c.framed left right)) (bagEnds c) := by
  refine sameEnds_of_reads hright (fun c e => mem_bagEnds_iff) (fun c => ?_) c
  unfold bagEnds
  split <;> simp

theorem sameEnds_quotedEnds (hright : '>' ∉ right) (quote : Char) (c : Cursor) :
    SameEnds left right (quotedEnds quote (c.framed left right)) (quotedEnds quote c) := by
  refine sameEnds_of_reads hright (fun c e => mem_quotedEnds_iff) (fun c => ?_) c
  unfold quotedEnds
  split
  · simp
  · simp only
    split <;> simp

theorem variableEnds_framed (hc : c.Closable) :
    variableEnds (c.framed left right) = (variableEnds c).map (·.framed left right) := by
  unfold variableEnds
  rw [Cursor.rest_framed]
  unfold Cursor.Closable at hc
  split
  · next rest hr =>
    -- both characters of the mark stand before the bracket
    obtain ⟨t, ht⟩ : ∃ t, c.rest = ':' :: '$' :: t := by
      have hp : [':', '$'] <+: c.rest :=
        (prefix_append_iff_of_mem hc (by simp)).1 ⟨rest, hr.symm⟩
      obtain ⟨t, ht⟩ := hp
      exact ⟨t, ht.symm⟩
    have hrest : rest = t ++ right := by simpa [ht] using hr.symm
    have hm : '>' ∈ t := by simpa [ht] using hc
    have htake : rest.takeWhile isWordChar = t.takeWhile isWordChar := by
      rw [hrest, takeWhile_append_of_mem hm (by decide)]
    simp only [ht, htake]
    split
    · rfl
    · have hlen := (List.takeWhile_prefix isWordChar (l := t)).length_le
      rw [Cursor.advance_framed (by simp [ht]; omega)]
      rfl
  · next hno =>
    split
    · next t ht => exact absurd (by simp [ht]) (hno (t ++ right))
    · rfl

theorem unquotedEnds_framed (hc : c.Closable) :
    unquotedEnds (c.framed left right) = (unquotedEnds c).map (·.framed left right) := by
  rw [unquotedEnds, unquotedEnds, Cursor.rest_framed, takeWhile_append_of_mem hc (by decide),
    Cursor.steps_framed (List.takeWhile_prefix _).length_le, List.map_reverse]

theorem sameEnds_valueEnds (hright : '>' ∉ right) (hc : c.Closable) :
    SameEnds left right (valueEnds (c.framed left right)) (valueEnds c) := by
  unfold valueEnds
  rw [hc.expect?_framed _ (by simp)]
  cases hv : c.expect? ['='] with
  | none => exact sameEnds_nil
  | some value =>
    have hvalue : value.Closable := hc.expect? (by simp) hv
    show SameEnds left right
      (quotedEnds '"' (value.framed left right) ++ quotedEnds '\x27' (value.framed left right) ++
        unquotedEnds (value.framed left right)) _
    rw [unquotedEnds_framed hvalue]
    exact ((sameEnds_quotedEnds hright '"' value).append
      (sameEnds_quotedEnds hright '\x27' value)).append (sameEnds_map hright _)

theorem sameEnds_namedEnds (hright : '>' ∉ right) (hc : c.Closable) :
    SameEnds left right (namedEnds (c.framed left right)) (namedEnds c) := by
  have hskip : (c.skipWhile isAttributeNameChar).Closable := hc.skipWhile (by decide)
  have hframed := hc.skipWhile_framed left right (p := isAttributeNameChar) (by decide)
  unfold Cursor.skipWhile at hskip hframed
  unfold namedEnds
  rw [Cursor.rest_framed, takeWhile_append_of_mem hc (by decide)] at hframed ⊢
  simp only
  split
  · exact sameEnds_nil
  · rw [hframed]
    exact (sameEnds_valueEnds hright hskip).append (sameEnds_map hright [_])

/-- **Attributes.** In a longer text an attribute has the same ends. -/
theorem Grammar.sameEnds_attributeEnds (g : Grammar) (hright : '>' ∉ right) (hc : c.Closable) :
    SameEnds left right (g.attributeEnds (c.framed left right)) (g.attributeEnds c) := by
  unfold Grammar.attributeEnds
  refine (SameEnds.append ?_ ?_).append (sameEnds_namedEnds hright hc)
  · split
    · exact ((sameEnds_callEnds hright _ c).append (sameEnds_callEnds hright _ c)).append
        (sameEnds_bagEnds hright c)
    · exact sameEnds_nil
  · split
    · rw [variableEnds_framed hc]
      exact sameEnds_map hright _
    · exact sameEnds_nil

/-! ## The scan -/

def Span.framed (left right : Text) (span : Span) : Span :=
  ⟨span.attributesEnd.framed left right, span.tagEnd.framed left right⟩

theorem findSome?_closables {f : Cursor → Option Span} (hf : ∀ e, ¬ e.Closable → f e = none)
    (l : List Cursor) : (closables l).findSome? f = l.findSome? f := by
  induction l with
  | nil => rfl
  | cons e l ih =>
    by_cases he : e.Closable
    · have hc : closables (e :: l) = e :: closables l :=
        List.filter_cons_of_pos (by simpa [Cursor.Closable] using he)
      rw [hc, List.findSome?_cons, List.findSome?_cons, ih]
    · have hc : closables (e :: l) = closables l :=
        List.filter_cons_of_neg (by simpa [Cursor.Closable] using he)
      rw [hc, ih, List.findSome?_cons, hf e he]

theorem findSome?_congr_of_mem {α β : Type} {f f' : α → Option β} {l : List α}
    (h : ∀ a ∈ l, f a = f' a) : l.findSome? f = l.findSome? f' := by
  induction l with
  | nil => rfl
  | cons a l ih =>
    rw [List.findSome?_cons, List.findSome?_cons, h a (by simp),
      ih fun b hb => h b (by simp [hb])]

/-- The first answer from the same ends is the same, if no answer comes from the others. -/
theorem SameEnds.findSome?_eq {l' l : List Cursor} {f : Cursor → Option Span}
    (h : SameEnds left right l' l) (hf : ∀ e, ¬ e.Closable → f e = none)
    (hl : ∀ e ∈ l, f (e.framed left right) = (f e).map (Span.framed left right)) :
    l'.findSome? f = (l.findSome? f).map (Span.framed left right) := by
  rw [← findSome?_closables hf l', h, List.findSome?_map, ← findSome?_closables hf l,
    List.map_findSome?]
  exact findSome?_congr_of_mem fun e he => hl e (mem_closables.1 he).1

/-- A way to end a tag with a closing bracket, the same in a longer text. -/
structure FramesEnding (ending : Cursor → Option Cursor) : Prop where
  closable : ∀ c d, ending c = some d → c.Closable
  text : ∀ c d, ending c = some d → d.text = c.text
  framed : ∀ (left right : Text) (c : Cursor), c.Closable → 0 < c.pos →
    ending (c.framed left right) = (ending c).map (·.framed left right)

theorem framesEnding_expect? {mark : Text} (hm : '>' ∈ mark) (hd : '>' ∉ mark.dropLast) :
    FramesEnding (·.expect? mark) where
  closable c d h := (Cursor.expect?_eq_some_iff.1 h).1.subset hm
  text c d h := by
    rw [(Cursor.expect?_eq_some_iff.1 h).2, Cursor.text_advance]
  framed _ _ _ hc _ := hc.expect?_framed mark hd

theorem framesEnding_slashEnd? : FramesEnding slashEnd? :=
  framesEnding_expect? (by decide) (by decide)

theorem framesEnding_bracketEnd? : FramesEnding bracketEnd? := by
  have hb : FramesEnding (·.expect? ['>']) := framesEnding_expect? (by decide) (by decide)
  have hexpect : ∀ c d, bracketEnd? c = some d → c.expect? ['>'] = some d := by
    intro c d h
    unfold bracketEnd? at h
    split at h
    · exact h
    · split at h
      · simp at h
      · exact h
  refine ⟨fun c d h => hb.closable c d (hexpect c d h), fun c d h => hb.text c d (hexpect c d h),
    fun left right c hc hpos => ?_⟩
  -- the character before the bracket is the same, since there is one
  obtain ⟨a, before, ha⟩ : ∃ a before, c.before = a :: before := by
    rw [c.pos_eq] at hpos
    exact List.exists_cons_of_length_pos hpos
  have ha' : (c.framed left right).before = a :: (before ++ left.reverse) := by
    show c.before ++ left.reverse = _
    rw [ha, List.cons_append]
  unfold bracketEnd?
  rw [ha, ha']
  simp only
  split
  · rfl
  · exact hb.framed left right c hc hpos

theorem framesEnding_eitherEnd? : FramesEnding eitherEnd? := by
  have h₁ : FramesEnding (·.expect? ['/', '>']) := framesEnding_expect? (by decide) (by decide)
  have h₂ : FramesEnding (·.expect? ['>']) := framesEnding_expect? (by decide) (by decide)
  have hor : ∀ c, eitherEnd? c = (c.expect? ['/', '>']).or (c.expect? ['>']) := by
    intro c
    rw [eitherEnd?, Option.orElse_eq_orElse, Option.orElse_eq_or]
  refine ⟨fun c d h => ?_, fun c d h => ?_, fun left right c hc hpos => ?_⟩
  · rw [hor, Option.or_eq_some_iff] at h
    exact h.elim (h₁.closable c d) fun h => h₂.closable c d h.2
  · rw [hor, Option.or_eq_some_iff] at h
    exact h.elim (h₁.text c d) fun h => h₂.text c d h.2
  · rw [hor, hor, h₁.framed left right c hc hpos, h₂.framed left right c hc hpos, Option.map_or]

theorem Grammar.text_of_scan_eq_some {span : Span} (h : g.scan c = some span) :
    span.attributesEnd.text = c.text ∧ c.pos ≤ span.attributesEnd.pos ∧
      g.ending span.attributesEnd = some span.tagEnd := by
  obtain ⟨attributes, blanks, rest, -, -, hr, hspan, hend⟩ := reads_of_scan_eq_some h
  refine ⟨?_, ?_, hend⟩
  · rw [hspan, Cursor.text_advance]
  · rw [hspan, Cursor.pos_advance_append hr]
    omega

/-- From a place without a closing bracket to come no tag ends. -/
theorem Grammar.scan_eq_none (he : FramesEnding g.ending) (hc : ¬ c.Closable) :
    g.scan c = none := by
  cases hs : g.scan c with
  | none => rfl
  | some span =>
    obtain ⟨ht, hp, hend⟩ := Grammar.text_of_scan_eq_some hs
    exact absurd ((Cursor.suffix_of_text ht hp).subset (he.closable _ _ hend)) hc

/-- **The scan.** In a longer text the scan from a place has the same answer. -/
theorem Grammar.scan_framed (he : FramesEnding g.ending) (hright : '>' ∉ right)
    (hpos : 0 < c.pos) :
    g.scan (c.framed left right) = (g.scan c).map (Span.framed left right) := by
  induction c using Grammar.scan.induct g with
  | case1 c _ ih =>
    by_cases hc : c.Closable
    · have hblank := hc.skipWhile_framed left right (p := isBlank) (by decide)
      have hclose : (c.skipWhile isBlank).Closable := hc.skipWhile (by decide)
      have hle : c.pos ≤ (c.skipWhile isBlank).pos := c.pos_le_advance _
      -- the same ends are tried
      have hends : SameEnds left right
          (g.endsAfter (c.framed left right) ((c.skipWhile isBlank).framed left right))
          (g.endsAfter c (c.skipWhile isBlank)) := by
        unfold Grammar.endsAfter
        simp only [Cursor.pos_framed, Nat.add_lt_add_iff_right]
        split
        · exact g.sameEnds_attributeEnds hright hclose
        · exact sameEnds_nil
      have hfind := hends.findSome?_eq (f := g.scan)
        (fun e he' => Grammar.scan_eq_none he he') fun e hmem =>
          ih ⟨e, hmem⟩ (Nat.lt_trans hpos (precedes_of_mem_endsAfter hmem).pos_lt)
      have hfinish : g.finish ((c.skipWhile isBlank).framed left right) =
          (g.finish (c.skipWhile isBlank)).map (Span.framed left right) := by
        unfold Grammar.finish
        rw [he.framed left right _ hclose (Nat.lt_of_lt_of_le hpos hle), Option.map_map,
          Option.map_map]
        rfl
      rw [g.scan_eq_or, g.scan_eq_or, hblank, hfind, hfinish, Option.map_or]
    · have hc' : ¬ (c.framed left right).Closable := by
        rwa [Cursor.closable_framed_iff hright]
      rw [Grammar.scan_eq_none he hc, Grammar.scan_eq_none he hc']
      rfl

end Tag

end ComponentTags
