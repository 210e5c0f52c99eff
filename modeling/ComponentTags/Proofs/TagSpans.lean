import ComponentTags.Proofs.Frame

/-!
# Every tag is found, and nothing else is touched

The search for the tags of a template looks at a place only if a quick test allows it. It finds the
same tags as a walk that tries every position, and replacing them leaves the text between them.

1. What is found at a place passes the quick test (`mayBegin_of_tagAt?`), begins at that place and
   ends further on in the text (`bounds_of_tagAt?`).
2. So the pieces of a template follow the walk from position to position (`walks_pieces`), which
   has one result only (`Walks.unique`). Its spans lie one behind the other (`Walks.bounds`,
   `Walks.pairwise`).
3. Replacing puts the new texts in the places of these spans (`expandM_pieces_eq`).
-/

namespace ComponentTags.Tag

open Text

variable {g : Grammar} {c d : Cursor} {tag : Tag}

/-! ## What is found at a place -/

/-- The grammars of all kinds of tags. -/
def Grammar.all : List Grammar :=
  [.slot, .selfClosing, .opening, .live]

theorem Grammar.mem_all_iff : g ∈ Grammar.all ↔ g = .slot ∨ ∃ k : Form, g = k.grammar := by
  simp only [Grammar.all, List.mem_cons, List.not_mem_nil, or_false]
  refine or_congr_right ⟨?_, ?_⟩
  · rintro (rfl | rfl | rfl)
    · exact ⟨.selfClosing, rfl⟩
    · exact ⟨.opening, rfl⟩
    · exact ⟨.live, rfl⟩
  · rintro ⟨k, rfl⟩
    cases k with
    | selfClosing => exact Or.inl rfl
    | opening => exact Or.inr (Or.inl rfl)
    | live => exact Or.inr (Or.inr rfl)

/-- Before a character that is no blank, a gap of spaces is a gap of blanks. -/
theorem afterBracket?_isBlank (h : afterBracket? isSpace c = some d) (hd : Stops isBlank d.rest) :
    afterBracket? isBlank c = some d := by
  obtain ⟨gap, rest, hr, hg, -, rfl⟩ := afterBracket?_eq_some_iff.1 h
  have hr' : c.rest = ('<' :: gap) ++ rest := hr
  have hrest : (c.advance ('<' :: gap).length).rest = rest := Cursor.rest_advance_append hr'
  exact afterBracket?_eq_some_iff.2
    ⟨gap, rest, hr, fun x hx => isBlank_of_isSpace (hg x hx), hrest ▸ hd, rfl⟩

theorem Form.mayBegin_of_head? {k : Form} {head : Head} (h : k.head? c = some head) :
    k.grammar.mayBegin c = true := by
  obtain ⟨e, he, -⟩ := Option.map_eq_some_iff.1 h
  obtain ⟨d, hd, hm⟩ := Option.bind_eq_some_iff.1 he
  obtain ⟨mark, hmem, ⟨rest, hr⟩, -⟩ := Form.mark?_eq_some_iff.1 hm
  obtain ⟨t, rfl⟩ := Form.exists_of_mem_marks hmem
  have hstops : Stops isBlank d.rest := by
    rw [← hr]
    exact stops_cons.2 (by cases k <;> decide)
  rw [k.mayBegin_grammar, afterBracket?_isBlank hd hstops, Option.bind_some, hm]
  rfl

theorem mayBegin_of_slotHead? {head : Head} (h : slotHead? c = some head) :
    Grammar.slot.mayBegin c = true := by
  rw [slotHead?_eq_map] at h
  obtain ⟨e, he, -⟩ := Option.map_eq_some_iff.1 h
  obtain ⟨d, hd, hm⟩ := Option.bind_eq_some_iff.1 he
  obtain ⟨d', hd', hm'⟩ := Option.bind_eq_some_iff.1 hm
  obtain ⟨rest, hr⟩ := exists_of_afterComponentMark? hd'
  have hstops : Stops isBlank d.rest := by
    rw [hr]
    exact stops_cons.2 (by decide)
  have hmark : afterSlotMark? isBlank c = some e := by
    rw [afterSlotMark?, afterBracket?_isBlank hd hstops]
    exact hm
  show (afterSlotMark? isBlank c).isSome = true
  rw [hmark]
  rfl

namespace Grammar

/-- **The quick test loses nothing.** -/
theorem mayBegin_of_tagAt? (hg : g ∈ all) (h : g.tagAt? c = some tag) : g.mayBegin c = true := by
  obtain ⟨head?, hm, h⟩ := List.exists_of_findSome?_eq_some h
  obtain ⟨head, hh, -⟩ := Option.bind_eq_some_iff.1 h
  rcases mem_all_iff.1 hg with rfl | ⟨k, rfl⟩
  · have hm' : head? = slotNameHead? ∨ head? = slotHead? := by simpa [Grammar.slot] using hm
    rcases hm' with rfl | rfl
    · rw [slotNameHead?_eq_bind] at hh
      obtain ⟨head', hh', -⟩ := Option.bind_eq_some_iff.1 hh
      exact mayBegin_of_slotHead? hh'
    · exact mayBegin_of_slotHead? hh
  · rw [k.heads_grammar, List.mem_singleton] at hm
    subst hm
    exact Form.mayBegin_of_head? hh

theorem framable_of_mem_all (hg : g ∈ all) : g.Framable [] [] := by
  rcases mem_all_iff.1 hg with rfl | ⟨k, rfl⟩
  · exact framable_slot (by simp)
  · exact k.framable

theorem pos_lt_of_ending (hg : g ∈ all) (h : g.ending c = some d) : c.pos < d.pos := by
  have hform : ∀ k : Form, k.grammar.ending c = some d → c.pos < d.pos := by
    intro k hk
    obtain ⟨ending, rest, hends, hr, rfl⟩ := Form.ending_eq_some_iff.1 hk
    obtain ⟨x, t, rfl, -⟩ := hends.exists_cons
    rw [Cursor.pos_advance_append hr, List.length_cons]
    omega
  rcases mem_all_iff.1 hg with rfl | ⟨k, rfl⟩
  · exact hform .opening h
  · exact hform k h

/-- What is found at a place begins there and ends further on in the text. -/
theorem bounds_of_tagAt? (hg : g ∈ all) (h : g.tagAt? c = some tag) :
    tag.start = c.pos ∧ c.pos < tag.stop ∧ tag.stop ≤ c.text.length := by
  obtain ⟨head?, hm, h⟩ := List.exists_of_findSome?_eq_some h
  obtain ⟨head, hh, h⟩ := Option.bind_eq_some_iff.1 h
  obtain ⟨span, hs, rfl⟩ := Option.map_eq_some_iff.1 h
  rw [g.search_eq_scan] at hs
  obtain ⟨htext, hle, hend⟩ := g.text_of_scan_eq_some hs
  have hframable := framable_of_mem_all hg
  have hhead := hframable.heads head? hm
  have hlt := hhead.pos_lt c head hh
  have hlt' := pos_lt_of_ending hg hend
  have hlen := span.tagEnd.pos_le_length
  rw [hframable.ending.text _ _ hend, htext, hhead.text c head hh] at hlen
  refine ⟨rfl, ?_, hlen⟩
  show c.pos < span.tagEnd.pos
  omega

theorem hit?_eq_none_iff (hg : g ∈ all) : g.hit? c = none ↔ g.tagAt? c = none := by
  unfold hit?
  cases ht : g.tagAt? c with
  | none => simp
  | some tag => simp [mayBegin_of_tagAt? hg ht]

/-! ## The walk over all positions -/

/-- The tags that a walk over a template finds from position `n` on: it tries every position, and
behind a tag it goes on at its end. -/
inductive Walks (g : Grammar) (template : Text) : Nat → List Tag → Prop
  | done {n : Nat} (hn : template.length < n) : Walks g template n []
  | miss {n : Nat} {tags : List Tag} (hn : n ≤ template.length)
      (h : g.tagAt? (Cursor.ofPos template n) = none) (hrest : Walks g template (n + 1) tags) :
      Walks g template n tags
  | hit {n : Nat} {tag : Tag} {tags : List Tag} (hn : n ≤ template.length)
      (h : g.tagAt? (Cursor.ofPos template n) = some tag) (hrest : Walks g template tag.stop tags) :
      Walks g template n (tag :: tags)

variable {template : Text} {n : Nat} {tags tags' : List Tag}

theorem Walks.unique (h : g.Walks template n tags) (h' : g.Walks template n tags') :
    tags = tags' := by
  induction h generalizing tags' with
  | done hn =>
    cases h' with
    | done _ => rfl
    | miss hn' _ _ => omega
    | hit hn' _ _ => omega
  | miss hn ht _ ih =>
    cases h' with
    | done hn' => omega
    | miss _ _ hrest => exact ih hrest
    | hit _ ht' _ => rw [ht] at ht'; cases ht'
  | hit hn ht _ ih =>
    cases h' with
    | done hn' => omega
    | miss _ ht' _ => rw [ht] at ht'; cases ht'
    | hit _ ht' hrest =>
      rw [ht] at ht'
      obtain rfl := Option.some.inj ht'
      rw [ih hrest]

/-- The spans of a walk lie in the template, from the position on where it begins. -/
theorem Walks.bounds (hg : g ∈ all) (h : g.Walks template n tags) :
    ∀ tag ∈ tags, n ≤ tag.start ∧ tag.start < tag.stop ∧ tag.stop ≤ template.length := by
  induction h with
  | done hn => simp
  | miss hn _ _ ih =>
    intro tag htag
    have := ih tag htag
    omega
  | @hit n tag tags hn ht _ ih =>
    obtain ⟨h₁, h₂, h₃⟩ := bounds_of_tagAt? hg ht
    have htext : (Cursor.ofPos template n).text = template := Cursor.text_advance _ _
    rw [Cursor.pos_ofPos hn] at h₁ h₂
    rw [htext] at h₃
    intro tag' htag
    rcases List.mem_cons.1 htag with rfl | htag
    · omega
    · have := ih tag' htag
      omega

/-- Each span of a walk ends before the next one begins. -/
theorem Walks.pairwise (hg : g ∈ all) (h : g.Walks template n tags) :
    tags.Pairwise fun a b => a.stop ≤ b.start := by
  induction h with
  | done hn => exact List.Pairwise.nil
  | miss _ _ _ ih => exact ih
  | hit _ _ hrest ih =>
    exact List.pairwise_cons.2 ⟨fun tag htag => (hrest.bounds hg tag htag).1, ih⟩

end Grammar

end Tag

theorem Cursor.ofPos_pos (c : Cursor) : Cursor.ofPos c.text c.pos = c :=
  ext_of_text (text_advance _ _) (pos_ofPos c.pos_le_length)

namespace Tag.Grammar

open Text

variable {g : Grammar} {c : Cursor} {template : Text} {n : Nat} {tags : List Tag}

theorem exists_advance_eq (hg : g ∈ all) {tag : Tag} {n : Nat} (h : g.hit? c = some (tag, n)) :
    g.tagAt? c = some tag ∧ tag.start = c.pos ∧
      (c.next.advance (n - 1)).text = c.text ∧ (c.next.advance (n - 1)).pos = tag.stop := by
  obtain ⟨-, htag, rfl⟩ := hit?_eq_some_iff.1 h
  obtain ⟨hstart, hlt, hle⟩ := bounds_of_tagAt? hg htag
  have hlen := c.pos_add_length
  obtain ⟨k, hk⟩ : ∃ k, tag.stop - tag.start = k + 1 := ⟨tag.stop - tag.start - 1, by omega⟩
  have hnext : c.next.advance (tag.stop - tag.start - 1) = c.advance (k + 1) := by
    rw [hk]
    rfl
  refine ⟨htag, hstart, ?_, ?_⟩
  · rw [hnext, Cursor.text_advance]
  · rw [hnext, Cursor.pos_advance (by omega)]
    omega

/-- **The search is the walk.** -/
theorem walks_pieces (hg : g ∈ all) (c : Cursor) :
    g.Walks c.text c.pos (Piece.items (c.pieces g.hit?)) := by
  induction c using Cursor.pieces_induction g.hit? with
  | nil c hr =>
    have hlen := c.pos_add_length
    rw [hr, List.length_nil] at hlen
    have hnone : g.tagAt? c = none := by
      cases ht : g.tagAt? c with
      | none => rfl
      | some tag =>
        have := bounds_of_tagAt? hg ht
        omega
    rw [Cursor.pieces_nil hr]
    exact .miss c.pos_le_length (by rwa [c.ofPos_pos]) (.done (by omega))
  | plain c a rest hr hh ih =>
    have hnext : c.next.pos = c.pos + 1 := Cursor.pos_advance (n := 1) (by simp [hr])
    rw [Cursor.text_next, hnext] at ih
    rw [Cursor.pieces_plain hr hh]
    refine .miss c.pos_le_length ?_ ih
    rw [c.ofPos_pos]
    exact (hit?_eq_none_iff hg).1 hh
  | found c tag n hr hh ih =>
    obtain ⟨htag, -, htext, hpos⟩ := exists_advance_eq hg hh
    rw [htext, hpos] at ih
    rw [Cursor.pieces_of_hit hr hh]
    exact .hit c.pos_le_length (by rwa [c.ofPos_pos]) ih

theorem walks_tags (hg : g ∈ all) (template : Text) : g.Walks template 0 (g.tags template) :=
  walks_pieces hg (Cursor.start template)

/-! ## Replacing -/

/-- The template from position `n` on, with a new text in the place of each tag. -/
def spliced (template : Text) : Nat → List Tag → List Text → Text
  | n, tag :: tags, new :: news =>
    template.extract n tag.start ++ new ++ spliced template tag.stop tags news
  | n, _, _ => template.drop n

theorem spliced_succ {a : Char} {rest : Text} (hr : template.drop n = a :: rest)
    (hn : ∀ tag ∈ tags, n < tag.start) (news : List Text) :
    spliced template n tags news = a :: spliced template (n + 1) tags news := by
  have hdrop : template.drop (n + 1) = rest := by
    rw [← List.drop_drop, hr]
    rfl
  cases tags with
  | nil => simp only [spliced, hr, hdrop]
  | cons tag tags =>
    cases news with
    | nil => simp only [spliced, hr, hdrop]
    | cons new news =>
      have hlt := hn tag (by simp)
      obtain ⟨k, hk⟩ : ∃ k, tag.start - n = k + 1 := ⟨tag.start - n - 1, by omega⟩
      have hk' : tag.start - (n + 1) = k := by omega
      simp only [spliced, List.extract_eq_take_drop, hr, hdrop, hk, hk', List.take_succ_cons,
        List.cons_append]

/-- **Replacing.** New texts are made from left to right and go in the places of the tags. -/
theorem expandM_pieces_eq {m : Type → Type} [Monad m] [LawfulMonad m] (hg : g ∈ all)
    (f : Tag → m Text) (c : Cursor) :
    Piece.expandM f (c.pieces g.hit?) =
      spliced c.text c.pos (Piece.items (c.pieces g.hit?)) <$>
        (Piece.items (c.pieces g.hit?)).mapM f := by
  induction c using Cursor.pieces_induction g.hit? with
  | nil c hr =>
    rw [Cursor.pieces_nil hr]
    simp [Piece.expandM, Piece.items, spliced, Cursor.drop_text, hr]
  | plain c a rest hr hh ih =>
    have hnext : c.next.pos = c.pos + 1 := Cursor.pos_advance (n := 1) (by simp [hr])
    have hwalk := walks_pieces hg c.next
    rw [Cursor.text_next, hnext] at ih hwalk
    have hsplice : ∀ news, spliced c.text c.pos (Piece.items (c.next.pieces g.hit?)) news =
        a :: spliced c.text (c.pos + 1) (Piece.items (c.next.pieces g.hit?)) news :=
      spliced_succ (c.drop_text.trans hr) fun tag htag => (hwalk.bounds hg tag htag).1
    rw [Cursor.pieces_plain hr hh, Piece.expandM, Piece.items, ih, Functor.map_map]
    exact congrArg (· <$> _) (funext fun news => (hsplice news).symm)
  | found c tag n hr hh ih =>
    obtain ⟨-, hstart, htext, hpos⟩ := exists_advance_eq hg hh
    rw [htext, hpos] at ih
    rw [Cursor.pieces_of_hit hr hh, Piece.expandM, Piece.items, ih, List.mapM_cons]
    simp [spliced, hstart]

theorem replace_eq_spliced (hg : g ∈ all) (f : Tag → Text) (template : Text) :
    g.replace f template = spliced template 0 (g.tags template) ((g.tags template).map f) := by
  have h := expandM_pieces_eq (m := Id) hg f (Cursor.start template)
  rw [← Piece.expand_eq_expandM] at h
  exact h.trans (congrArg (spliced template 0 (g.tags template)) List.idRun_mapM)

theorem extract_append_drop (template : Text) {m : Nat} (h : n ≤ m) :
    template.extract n m ++ template.drop m = template.drop n := by
  have hdrop : template.drop m = (template.drop n).drop (m - n) := by
    rw [List.drop_drop, Nat.add_sub_cancel' h]
  rw [hdrop, List.extract_eq_take_drop, List.take_append_drop]

/-- Every tag exchanged for itself gives the template back. -/
theorem spliced_extract (hn : ∀ tag ∈ tags, n ≤ tag.start ∧ tag.start ≤ tag.stop)
    (hp : tags.Pairwise fun a b => a.stop ≤ b.start) :
    spliced template n tags (tags.map fun tag => template.extract tag.start tag.stop) =
      template.drop n := by
  induction tags generalizing n with
  | nil => rfl
  | cons tag tags ih =>
    obtain ⟨hbehind, hp⟩ := List.pairwise_cons.1 hp
    obtain ⟨hstart, hstop⟩ := hn tag (by simp)
    have hrest := ih (fun tag' h => ⟨hbehind tag' h, (hn tag' (by simp [h])).2⟩) hp
    rw [List.map_cons, spliced, hrest, List.append_assoc, extract_append_drop template hstop,
      extract_append_drop template hstart]

/-- **Every tag is found, and nothing else is touched.** For every kind of tag and every template,
the tags are those of the walk over all positions. Their spans are not empty, lie in the template
and stand one behind the other. Replacing leaves everything between them, also if new texts are
made with effects; if each tag is exchanged for its own text, the template stays as it is. -/
theorem tags_eq_walk (g : Grammar) (hg : g ∈ all) (template : Text) :
    (∀ tags, g.Walks template 0 tags ↔ tags = g.tags template) ∧
      (∀ tag ∈ g.tags template, tag.start < tag.stop ∧ tag.stop ≤ template.length) ∧
      ((g.tags template).Pairwise fun a b => a.stop ≤ b.start) ∧
      (∀ f : Tag → Text, g.replace f template =
        spliced template 0 (g.tags template) ((g.tags template).map f)) ∧
      (∀ (m : Type → Type) [Monad m] [LawfulMonad m] (f : Tag → m Text),
        Piece.expandM f (g.pieces template) =
          spliced template 0 (g.tags template) <$> (g.tags template).mapM f) ∧
      g.replace (fun tag => template.extract tag.start tag.stop) template = template := by
  have hwalk := walks_tags hg template
  have hbounds := hwalk.bounds hg
  refine ⟨fun tags => ⟨fun h => h.unique hwalk, fun h => h ▸ hwalk⟩, fun tag htag => ?_,
    hwalk.pairwise hg, fun f => replace_eq_spliced hg f template,
    fun m _ _ f => expandM_pieces_eq hg f (Cursor.start template), ?_⟩
  · exact (hbounds tag htag).2
  · rw [replace_eq_spliced hg]
    refine spliced_extract (fun tag htag => ?_) (hwalk.pairwise hg)
    have := hbounds tag htag
    omega

/-- A slot that begins inside another one, which does not end: it is found, its own text in its
place changes nothing, and a failure to make a new text is the failure of the whole. -/
theorem replace_slot_in_open_slot :
    Grammar.slot ∈ all ∧
      Grammar.slot.replace
          (fun tag => ("<x-slot <x-slot:b c>".toList).extract tag.start tag.stop)
          "<x-slot <x-slot:b c>".toList =
        "<x-slot <x-slot:b c>".toList ∧
      Piece.expandM (fun _ => (none : Option Text))
          (Grammar.slot.pieces "<x-slot <x-slot:b c>".toList) =
        spliced "<x-slot <x-slot:b c>".toList 0
            (Grammar.slot.tags "<x-slot <x-slot:b c>".toList) <$>
          (Grammar.slot.tags "<x-slot <x-slot:b c>".toList).mapM fun _ => none := by
  have hg : Grammar.slot ∈ all := by simp [all]
  obtain ⟨-, -, -, -, heffects, hsame⟩ := tags_eq_walk .slot hg "<x-slot <x-slot:b c>".toList
  exact ⟨hg, hsame, heffects Option fun _ => none⟩

end Tag.Grammar

end ComponentTags
