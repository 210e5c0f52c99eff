import ComponentTags.Proofs.Quiet
import ComponentTags.Proofs.TagAttribute

/-!
# Finding a tag in writing

A search for tags of one kind finds a tag in writing at its own bracket and takes it up to its own
end, whatever stands around it. What is found tells its name and its attributes.

1. A search finds something only behind `<`, blanks and a character of its kind
   (`Cursor.Opens`), so it finds nothing in a text without tags (`Cursor.misses_of_quiet`).
2. The head of a tag ends where it is written to end, and from there the scan goes through the
   attributes to the ending (`Form.hit?_eq_some`).
3. A closing tag is found by its mark and its name (`slotClosing?_eq`, `componentClosing?_eq`).
-/

namespace ComponentTags

open Text

structure TagName where
  text : Text
  isRun : IsRun isTagNameChar text
  no_slot : ¬ Tag.slotName <+: text
  no_hyphen : text.getLast? ≠ some '-'

/-! ## Where a search can find something -/

namespace Cursor

/-- Behind a `<` and blanks stands the character. -/
def Opens (x : Char) (c : Cursor) : Prop :=
  ∃ gap rest, (∀ y ∈ gap, isBlank y = true) ∧ c.rest = '<' :: (gap ++ x :: rest)

variable {c d : Cursor} {x y : Char} {u v rest : Text}

theorem Opens.eq (h : c.Opens x) (hr : c.rest = '<' :: y :: rest) (hy : isBlank y = false) :
    y = x := by
  obtain ⟨gap, rest', hg, hr'⟩ := h
  rw [hr] at hr'
  cases gap with
  | nil => exact (List.cons.inj (List.cons.inj hr').2).1
  | cons z gap =>
    obtain ⟨rfl, -⟩ := List.cons.inj (List.cons.inj hr').2
    rw [hg y (by simp)] at hy
    simp at hy

variable {α : Type} {hit : Cursor → Option (α × Nat)}

theorem misses_of_quiet (hopen : ∀ d found, hit d = some found → d.Opens x) (hx : x ≠ '?')
    (hu : Quiet u) (hr : c.rest = u ++ v) : c.Misses hit u := by
  refine misses_of_suffix hr fun s d hs hne hd _ => ?_
  cases hh : hit d with
  | none => rfl
  | some found =>
    obtain ⟨gap, rest, hg, hr'⟩ := hopen d found hh
    obtain ⟨a, s, rfl⟩ := List.exists_cons_of_ne_nil hne
    rw [hd] at hr'
    obtain ⟨rfl, hrest⟩ := List.cons.inj hr'
    -- a question mark follows the bracket, and it is neither a blank nor `x`
    have hq := (hu.of_suffix hs).1 rfl
    obtain ⟨t, rfl⟩ : ∃ t, s = '?' :: t := List.head?_eq_some_iff.1 hq
    cases gap with
    | nil => exact absurd (List.cons.inj hrest).1.symm hx
    | cons b gap =>
      obtain ⟨rfl, -⟩ := List.cons.inj hrest
      exact absurd (hg '?' (by simp)) (by decide)

theorem misses_of_hit_eq_none (hopen : ∀ d found, hit d = some found → d.Opens x)
    (hx : x ≠ '?') (hu : '<' ∉ u) (hr : c.rest = '<' :: u ++ v) (h : hit c = none) :
    c.Misses hit ('<' :: u) := by
  intro k hk
  cases k with
  | zero => exact h
  | succ k =>
    have hr' : c.next.rest = u ++ v := by simp [rest_next, hr]
    exact misses_of_quiet hopen hx (quiet_of_not_mem hu) hr' k (by simpa using hk)

end Cursor

namespace Tag

open TagAttribute

variable {isGap : Char → Bool} {c d e : Cursor} {x : Char} {rest v : Text}

theorem afterBracket?_cons (hr : c.rest = '<' :: x :: rest) (hx : isGap x = false) :
    afterBracket? isGap c = some (c.advance 1) :=
  afterBracket?_eq_some_iff.2 ⟨[], x :: rest, hr, by simp, stops_cons.2 hx, rfl⟩

theorem opens_of_afterBracket? (h : afterBracket? isBlank c = some d)
    (hd : d.rest = x :: rest) : c.Opens x := by
  obtain ⟨gap, rest', hr, hg, -, rfl⟩ := afterBracket?_eq_some_iff.1 h
  have hr' : c.rest = ('<' :: gap) ++ rest' := hr
  have hd' := Cursor.rest_advance_append hr'
  rw [List.length_cons, hd] at hd'
  exact ⟨gap, rest, hg, by rw [hr, ← hd']⟩

theorem afterComponentMark?_eq (hr : c.rest = 'x' :: '-' :: rest) :
    afterComponentMark? c = some (c.advance 2) :=
  (Form.mark?_eq_some_iff (k := .opening)).2
    ⟨['x', '-'], by simp [Form.marks], ⟨rest, hr.symm⟩, rfl⟩

theorem exists_of_afterComponentMark? (h : afterComponentMark? c = some d) :
    ∃ rest, c.rest = 'x' :: rest := by
  obtain ⟨mark, hm, ⟨rest, hr⟩, -⟩ := (Form.mark?_eq_some_iff (k := .opening)).1 h
  simp only [Form.marks, List.mem_cons, List.not_mem_nil, or_false] at hm
  rcases hm with rfl | rfl
  · exact ⟨'-' :: rest, hr.symm⟩
  · exact ⟨':' :: rest, hr.symm⟩

/-! ## Components and live components -/

def component (kind : Kind) (name attributes : Text) (start stop : Nat) : Tag :=
  { name, attributes, kind, start, stop, inlineName := [], nameAttribute := [],
    nameBound := false }

namespace Form

variable {k : Form} {name mark : Text}

theorem mayBegin_grammar (k : Form) (c : Cursor) :
    k.grammar.mayBegin c = ((afterBracket? isBlank c).bind k.mark?).isSome := by
  cases k <;> rfl

theorem opens_of_hit? {found : Tag × Nat} (h : k.grammar.hit? c = some found) :
    c.Opens k.initial := by
  have hb := (Grammar.hit?_eq_some_iff.1 h).1
  rw [k.mayBegin_grammar, Option.isSome_iff_exists] at hb
  obtain ⟨e, he⟩ := hb
  obtain ⟨d, hd, hm⟩ := Option.bind_eq_some_iff.1 he
  obtain ⟨mark, hmem, ⟨rest, hr⟩, -⟩ := mark?_eq_some_iff.1 hm
  obtain ⟨t, rfl⟩ := exists_of_mem_marks hmem
  exact opens_of_afterBracket? hd hr.symm

/-- A tag is found if attributes and an ending follow its head. -/
theorem hit?_eq_map (hm : mark ∈ k.marks) (hn : ∀ x ∈ name, isTagNameChar x = true)
    (hr : c.rest = '<' :: (mark ++ name) ++ rest) (hs : Stops isTagNameChar rest) :
    k.grammar.hit? c =
      (k.grammar.scan (c.advance ('<' :: (mark ++ name)).length)).map fun span =>
        (component k.grammar.kind name
          ((c.advance ('<' :: (mark ++ name)).length).upTo span.attributesEnd) c.pos
          span.tagEnd.pos, span.tagEnd.pos - c.pos) := by
  obtain ⟨t, rfl⟩ := exists_of_mem_marks hm
  have hr₁ : c.rest = '<' :: k.initial :: (t ++ name ++ rest) := by simp [hr]
  have hbegin : k.grammar.mayBegin c = true := by
    have hb : afterBracket? isBlank c = some (c.advance 1) :=
      afterBracket?_cons hr₁ (by cases k <;> decide)
    have hr₂ : (c.advance 1).rest = (k.initial :: t) ++ (name ++ rest) := by
      have := Cursor.rest_advance_append (u := ['<']) hr₁
      simpa using this
    rw [k.mayBegin_grammar, hb, Option.bind_some,
      mark?_eq_some_iff.2 ⟨_, hm, ⟨_, hr₂.symm⟩, rfl⟩]
    rfl
  have hh : k.head? c = some { name, stop := c.advance ('<' :: (k.initial :: t ++ name)).length } :=
    head?_eq_some_iff.2 ⟨[], _, name, rest, hr, by simp, hm, hn, hs, rfl⟩
  rw [Grammar.hit?, if_pos hbegin, k.tagAt?_grammar, hh, Option.bind_some, Grammar.complete?,
    Grammar.search_eq_scan, Option.map_map]
  rfl

theorem Ends.exists_cons {before ending : Text} (h : k.Ends before ending) :
    ∃ x t, ending = x :: t ∧ (x = '/' ∨ x = '>') := by
  have hhead := h.head []
  rw [List.append_nil] at hhead
  cases ending with
  | nil =>
    cases k with
    | selfClosing => simp [Ends] at h
    | opening => simp [Ends] at h
    | live => simp [Ends] at h
  | cons x t => exact ⟨x, t, rfl, hhead x (by simp)⟩

theorem takes {component : Bool}
    (h : component = true → k.grammar.directives = true ∧ k.grammar.boundVariables = true) :
    k.grammar.Takes component := by
  refine ⟨h, fun c e he => ?_⟩
  obtain ⟨ending, rest, hends, hr, -⟩ := ending_eq_some_iff.1 he
  obtain ⟨x, t, rfl, hx⟩ := hends.exists_cons
  exact ⟨x, t ++ rest, hr, hx⟩

section Written

variable {component : Bool} {l : List (TagAttribute component)} {blanks ending : Text}

/-- What stands behind the name of a tag in writing ends the name. -/
theorem stops_printed (l : List (TagAttribute component)) (hb : ∀ y ∈ blanks, isBlank y = true)
    (hx : x = '/' ∨ x = '>') : Stops isTagNameChar (printed l ++ (blanks ++ x :: rest)) :=
  stops_of_delimited (fun _ hy => isDelimiter_of_isAttributeNameChar
    (isAttributeNameChar_of_isTagNameChar hy))
    (isDelimiter_head_printed l (isDelimiter_head_blanks hb hx rest))

/-- A tag in writing is found if its ending is one of its form. -/
theorem hit?_printed (hg : k.grammar.Takes component) (hm : mark ∈ k.marks)
    (hn : ∀ y ∈ name, isTagNameChar y = true) (hb : ∀ y ∈ blanks, isBlank y = true)
    (hx : x = '/' ∨ x = '>')
    (hr : c.rest = '<' :: (mark ++ name) ++ (printed l ++ (blanks ++ x :: rest))) :
    k.grammar.hit? c =
      (k.grammar.ending
        (c.advance ('<' :: (mark ++ name) ++ (printed l ++ blanks)).length)).map fun stop =>
          (Tag.component k.grammar.kind name (printed l ++ blanks) c.pos stop.pos,
            stop.pos - c.pos) := by
  have hr₁ := Cursor.rest_advance_append hr
  have hr₂ : (c.advance ('<' :: (mark ++ name)).length).rest =
      (printed l ++ blanks) ++ x :: rest := by
    rw [hr₁, List.append_assoc]
  rw [hit?_eq_map hm hn hr (stops_printed l hb hx), hg.scan_eq_finish l hr₁ hb hx,
    Grammar.finish, Option.map_map]
  simp only [Function.comp_def, Cursor.upTo_advance_append hr₂]
  rw [Cursor.advance_advance, ← List.length_append]

theorem hit?_eq_some (hg : k.grammar.Takes component) (hm : mark ∈ k.marks)
    (hn : ∀ y ∈ name, isTagNameChar y = true) (hb : ∀ y ∈ blanks, isBlank y = true)
    (he : k.Ends ('<' :: (mark ++ name) ++ (printed l ++ blanks)) ending)
    (hr : c.rest = ('<' :: (mark ++ name) ++ (printed l ++ blanks) ++ ending) ++ v) :
    ∃ stop, k.grammar.hit? c =
      some (Tag.component k.grammar.kind name (printed l ++ blanks) c.pos stop,
        ('<' :: (mark ++ name) ++ (printed l ++ blanks) ++ ending).length) := by
  obtain ⟨x, t, rfl, hx⟩ := he.exists_cons
  have hr₁ : c.rest = '<' :: (mark ++ name) ++ (printed l ++ (blanks ++ x :: (t ++ v))) := by
    simpa only [List.append_assoc, List.cons_append] using hr
  have hr₂ : c.rest = ('<' :: (mark ++ name) ++ (printed l ++ blanks)) ++ (x :: t ++ v) := by
    simpa only [List.append_assoc, List.cons_append] using hr
  have hend := (ending_eq_some_iff (k := k)).2 ⟨x :: t, v, ?_, Cursor.rest_advance_append hr₂, rfl⟩
  · rw [hit?_printed hg hm hn hb hx hr₁, hend, Option.map_some, Cursor.advance_advance,
      ← List.length_append, Cursor.pos_advance_append hr, Nat.add_sub_cancel_left]
    exact ⟨_, rfl⟩
  · rw [Cursor.before_advance_append hr₂, List.reverse_append, List.reverse_reverse]
    exact (ends_append (by simp)).2 he

end Written

end Form

/-- A bracket behind a text that ends like a tag is an ending. -/
theorem bracketEnd?_eq {u : Text} (hr : c.rest = u ++ '>' :: v) (hne : u ≠ [])
    (hu : ∀ x ∈ u.getLast?, x ≠ '/' ∧ x ≠ '=' ∧ x ≠ '-') :
    bracketEnd? (c.advance u.length) = some (c.advance (u ++ ['>']).length) := by
  have he : Form.opening.Ends (c.advance u.length).before.reverse ['>'] := by
    rw [Cursor.before_advance_append hr, List.reverse_append, List.reverse_reverse]
    exact (Form.ends_append hne).2 ⟨rfl, hu⟩
  rw [List.length_append, ← Cursor.advance_advance]
  exact (Form.ending_eq_some_iff (k := .opening)).2
    ⟨['>'], v, he, Cursor.rest_advance_append hr, rfl⟩

/-! ## Closing tags -/

variable {u : Text}

def closingMark : Text :=
  ['<', '/', 'x', '-']

/-- The cursor behind the beginning of a closing tag, with a gap before its mark. -/
def afterClosingMark? (isGap : Char → Bool) (c : Cursor) : Option Cursor :=
  (c.expect? ['<', '/']).bind fun d => afterComponentMark? (d.skipWhile isGap)

theorem slotClosing?_eq_bind (c : Cursor) :
    slotClosing? c = (afterClosingMark? isBlank c).bind fun d => (d.expect? slotName).bind fun d =>
      ((d.skipWhile (· != '>')).expect? ['>']).bind fun d => some ((), d.pos - c.pos) := by
  rw [afterClosingMark?, Option.bind_assoc]
  rfl

theorem componentClosing?_eq_bind (c : Cursor) :
    componentClosing? c = (afterClosingMark? isSpace c).bind fun d =>
      (((d.skipWhile isTagNameChar).skipWhile isSpace).expect? ['>']).bind fun d =>
        some ((), d.pos - c.pos) := by
  rw [afterClosingMark?, Option.bind_assoc]
  rfl

theorem afterClosingMark?_eq (hx : isGap 'x' = false) (hr : c.rest = closingMark ++ rest) :
    afterClosingMark? isGap c = some (c.advance closingMark.length) := by
  have hr₁ : c.rest = ['<', '/'] ++ ('x' :: '-' :: rest) := hr
  have h₁ := Cursor.rest_advance_append hr₁
  have hs : (c.advance ['<', '/'].length).skipWhile isGap = c.advance ['<', '/'].length := by
    apply Cursor.skipWhile_of_stops
    rw [h₁]
    exact stops_cons.2 hx
  rw [afterClosingMark?, Cursor.expect?_append hr₁, Option.bind_some, hs,
    afterComponentMark?_eq h₁, Cursor.advance_advance]
  rfl

theorem opens_of_afterClosingMark? (h : afterClosingMark? isGap c = some d) : c.Opens '/' := by
  obtain ⟨d', hd, -⟩ := Option.bind_eq_some_iff.1 h
  obtain ⟨⟨rest, hr⟩, -⟩ := Cursor.expect?_eq_some_iff.1 hd
  exact ⟨[], rest, by simp, hr.symm⟩

theorem opens_of_slotClosing? {found : Unit × Nat} (h : slotClosing? c = some found) :
    c.Opens '/' := by
  rw [slotClosing?_eq_bind] at h
  obtain ⟨d, hd, -⟩ := Option.bind_eq_some_iff.1 h
  exact opens_of_afterClosingMark? hd

theorem opens_of_componentClosing? {found : Unit × Nat} (h : componentClosing? c = some found) :
    c.Opens '/' := by
  rw [componentClosing?_eq_bind] at h
  obtain ⟨d, hd, -⟩ := Option.bind_eq_some_iff.1 h
  exact opens_of_afterClosingMark? hd

theorem expect?_bracket (hr : c.rest = (u ++ ['>']) ++ v) :
    ((c.advance u.length).expect? ['>']).bind (fun d => some ((), d.pos - c.pos)) =
      some ((), (u ++ ['>']).length) := by
  have hr₁ : c.rest = u ++ (['>'] ++ v) := by rw [hr, List.append_assoc]
  rw [Cursor.expect?_append (Cursor.rest_advance_append hr₁), Option.bind_some,
    Cursor.advance_advance, ← List.length_append, Cursor.pos_advance_append hr,
    Nat.add_sub_cancel_left]

theorem slotClosing?_eq (hr : c.rest = (closingMark ++ slotName ++ ['>']) ++ v) :
    slotClosing? c = some ((), (closingMark ++ slotName ++ ['>']).length) := by
  have hr₁ : c.rest = closingMark ++ (slotName ++ '>' :: v) := by simp [hr]
  have hr₂ : c.rest = (closingMark ++ slotName) ++ '>' :: v := by simp [hr]
  have hs : (c.advance (closingMark ++ slotName).length).skipWhile (· != '>') =
      c.advance (closingMark ++ slotName).length := by
    apply Cursor.skipWhile_of_stops
    rw [Cursor.rest_advance_append hr₂]
    exact stops_cons.2 (by decide)
  rw [slotClosing?_eq_bind, afterClosingMark?_eq (by decide) hr₁, Option.bind_some,
    Cursor.expect?_append (Cursor.rest_advance_append hr₁), Option.bind_some,
    Cursor.advance_advance, ← List.length_append, hs]
  exact expect?_bracket hr

theorem slotClosing?_eq_none (hr : c.rest = closingMark ++ rest) (hn : ¬ slotName <+: rest) :
    slotClosing? c = none := by
  have he : (c.advance closingMark.length).expect? slotName = none := by
    rwa [Cursor.expect?_eq_none_iff, Cursor.rest_advance_append hr]
  rw [slotClosing?_eq_bind, afterClosingMark?_eq (by decide) hr, Option.bind_some, he]
  rfl

theorem componentClosing?_eq {n : Text} (hn : ∀ x ∈ n, isTagNameChar x = true)
    (hr : c.rest = (closingMark ++ n ++ ['>']) ++ v) :
    componentClosing? c = some ((), (closingMark ++ n ++ ['>']).length) := by
  have hr₁ : c.rest = closingMark ++ (n ++ '>' :: v) := by simp [hr]
  have hr₂ : c.rest = (closingMark ++ n) ++ '>' :: v := by simp [hr]
  have hs : (c.advance (closingMark ++ n).length).skipWhile isSpace =
      c.advance (closingMark ++ n).length := by
    apply Cursor.skipWhile_of_stops
    rw [Cursor.rest_advance_append hr₂]
    exact stops_cons.2 (by decide)
  rw [componentClosing?_eq_bind, afterClosingMark?_eq (by decide) hr₁, Option.bind_some,
    Cursor.skipWhile_append (Cursor.rest_advance_append hr₁) hn (stops_cons.2 (by decide)),
    Cursor.advance_advance, ← List.length_append, hs]
  exact expect?_bracket hr

end Tag

end ComponentTags
