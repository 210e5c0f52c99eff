import ComponentTags.Proofs.AttributeSyntax
import ComponentTags.Proofs.Backtracking

/-!
# Tags are recognised exactly by their grammar

A tag is a bracket, a gap, a mark, a name, attributes that each follow blanks, blanks and an
ending (`Parts`). Nothing in it has to be maximal. A tag is found at a place of a text if and only
if one begins there, and what is found is such a tag (`tagAt?_isSome_iff_derives`).

1. An answer of `scan` goes through a list of attributes to an ending (`reads_of_scan_eq_some`).
2. Where a list of attributes leads to an ending, `scan` has an answer (`isSome_scan`). The first
   attribute of the list is among the ends that `scan` tries, because a delimiter follows it.
3. The head of a tag takes the longest gap and the longest name, and no tag has others.
-/

namespace ComponentTags.Tag

open Text

variable {blank : Char → Bool} {g : Grammar} {c d e : Cursor} {attributes blanks rest : Text}

/-! ## Lists of attributes -/

/-- Attributes one after the other, each after blanks. -/
inductive AttributeList (blank : Char → Bool) (g : Grammar) : Text → Prop
  | nil : AttributeList blank g []
  | cons {blanks a rest : Text} (hb : IsRun blank blanks) (ha : Attribute blank g a)
      (hr : AttributeList blank g rest) : AttributeList blank g (blanks ++ a ++ rest)

theorem AttributeList.exists_blank (h : AttributeList blank g attributes)
    (hne : attributes ≠ []) : ∃ x ∈ attributes, blank x = true := by
  cases h with
  | nil => exact absurd rfl hne
  | cons hb ha hr =>
    obtain ⟨x, t, rfl, hx⟩ := hb.exists_cons
    exact ⟨x, by simp, hx⟩

theorem AttributeList.isDelimiter_head (ha : AttributeList isBlank g attributes)
    (hb : ∀ x ∈ blanks, isBlank x = true) (hr : ∀ x ∈ rest.head?, isDelimiter x = true) :
    ∀ x ∈ (attributes ++ blanks ++ rest).head?, isDelimiter x = true := by
  cases ha with
  | nil =>
    rcases blanks with _ | ⟨y, blanks⟩
    · exact hr
    · intro x hx
      obtain rfl : y = x := by simpa using hx
      simp [isDelimiter, hb y (by simp)]
  | cons hb' ha' hr' =>
    obtain ⟨y, t, rfl, hy⟩ := hb'.exists_cons
    intro x hx
    obtain rfl : y = x := by simpa using hx
    simp [isDelimiter, hy]

theorem Grammar.scan_eq_or (g : Grammar) (c : Cursor) :
    g.scan c = ((g.endsAfter c (c.skipWhile isBlank)).findSome? g.scan).or
      (g.finish (c.skipWhile isBlank)) := by
  rw [g.scan_eq]
  simp

/-- An answer goes through attributes and blanks to an ending. -/
theorem reads_of_scan_eq_some {span : Span} (h : g.scan c = some span) :
    ∃ attributes blanks rest, AttributeList isBlank g attributes ∧
      (∀ x ∈ blanks, isBlank x = true) ∧ c.rest = attributes ++ blanks ++ rest ∧
      span.attributesEnd = c.advance (attributes ++ blanks).length ∧
      g.ending span.attributesEnd = some span.tagEnd := by
  induction c using Grammar.scan.induct g with
  | case1 c _ ih =>
    obtain ⟨blanks, rest, hr, hb, -, hs⟩ := c.exists_skipWhile isBlank
    rw [g.scan_eq_or, Option.or_eq_some_iff] at h
    rcases h with h | ⟨-, h⟩
    · -- one more attribute, and the answer from its end on
      obtain ⟨e, he, hse⟩ := List.exists_of_findSome?_eq_some h
      have hi := ih ⟨e, he⟩ hse
      dsimp only at hi
      obtain ⟨as, bs, rest', has, hbs, hr', hspan, hend⟩ := hi
      unfold Grammar.endsAfter at he
      split at he
      · next hp =>
        obtain ⟨a, rest₁, ha, hd, rfl⟩ := reads_attribute_of_mem_attributeEnds he
        rw [hs, Cursor.rest_advance_append hr] at hd
        have hne : blanks ≠ [] := by
          rintro rfl
          simp [hs, Cursor.advance] at hp
        have hc : c.rest = blanks ++ a ++ rest₁ := by rw [hr, hd, List.append_assoc]
        have hae : (c.skipWhile isBlank).advance a.length =
            c.advance (blanks ++ a).length := by
          rw [hs, Cursor.advance_advance, List.length_append]
        rw [hae] at hr' hspan
        rw [Cursor.rest_advance_append hc] at hr'
        refine ⟨blanks ++ a ++ as, bs, rest', .cons ⟨hne, hb⟩ ha has, hbs, ?_, ?_, hend⟩
        · simp only [hc, hr', List.append_assoc]
        · rw [hspan, Cursor.advance_advance]
          simp only [List.length_append, Nat.add_assoc]
      · simp at he
    · obtain ⟨tagEnd, ht, rfl⟩ := Option.map_eq_some_iff.1 h
      exact ⟨[], blanks, rest, .nil, hb, hr, hs, ht⟩

/-- Where attributes and blanks lead to an ending, there is an answer. -/
theorem isSome_scan (ha : AttributeList isBlank g attributes)
    (hb : ∀ x ∈ blanks, isBlank x = true) (hr : c.rest = attributes ++ blanks ++ rest)
    (hx : ∀ x ∈ rest.head?, x = '/' ∨ x = '>')
    (he : (g.ending (c.advance (attributes ++ blanks).length)).isSome) :
    (g.scan c).isSome := by
  have hd : ∀ x ∈ rest.head?, isDelimiter x = true := by
    intro x hx'
    rcases hx x hx' with rfl | rfl <;> decide
  induction ha generalizing c with
  | nil =>
    have hs : Stops isBlank rest := by
      intro x hx'
      rcases hx x hx' with rfl | rfl <;> decide
    rw [g.scan_eq_or, c.skipWhile_append hr hb hs]
    simp only [List.nil_append] at he
    simp [Grammar.finish, he]
  | cons hb' ha' hr' ih =>
    rename_i blanks' a attributes
    have hc : c.rest = blanks' ++ (a ++ (attributes ++ blanks ++ rest)) := by
      simp only [hr, List.append_assoc]
    have hs : c.skipWhile isBlank = c.advance blanks'.length := by
      refine c.skipWhile_append hc hb'.2 ?_
      obtain ⟨x, t, rfl, hx'⟩ := ha'.exists_cons
      rw [List.cons_append, stops_cons]
      revert hx'
      simp only [isDelimiter, Bool.or_eq_false_iff]
      exact fun h => h.1.1
    have hp : c.pos < (c.advance blanks'.length).pos := by
      have := List.length_pos_iff.2 hb'.1
      rw [Cursor.pos_advance_append hc]
      omega
    have hc' : (c.advance blanks'.length).rest = a ++ (attributes ++ blanks ++ rest) :=
      Cursor.rest_advance_append hc
    -- the end of the first attribute is one of those that are tried
    have hm : c.advance (blanks' ++ a).length ∈
        g.endsAfter c (c.advance blanks'.length) := by
      rw [Grammar.endsAfter, if_pos hp, List.length_append, ← Cursor.advance_advance]
      exact mem_attributeEnds_of_attribute ha' hc' (hr'.isDelimiter_head hb hd)
    have hi : (g.scan (c.advance (blanks' ++ a).length)).isSome := by
      refine ih ?_ ?_
      · refine Cursor.rest_advance_append ?_
        simp only [hr, List.append_assoc]
      · rw [Cursor.advance_advance]
        simpa only [List.length_append, Nat.add_assoc] using he
    rw [g.scan_eq_or, hs, Option.isSome_or, Bool.or_eq_true]
    exact Or.inl (List.findSome?_isSome_iff.2 ⟨_, hm, hi⟩)

/-! ## Forms of tags -/

/-- The forms of tags that have one kind of head. -/
inductive Form where
  | selfClosing
  | opening
  | live

namespace Form

variable {k : Form} {before before' ending : Text}

def grammar : Form → Grammar
  | selfClosing => .selfClosing
  | opening => .opening
  | live => .live

/-- What stands before the name. -/
def marks : Form → List Text
  | selfClosing => [['x', '-'], ['x', ':']]
  | opening => [['x', '-'], ['x', ':']]
  | live => [liveMark]

/-- What ends a tag behind the text `before`. -/
def Ends (before : Text) : Form → Text → Prop
  | selfClosing, ending => ending = ['/', '>']
  | opening, ending =>
    ending = ['>'] ∧ ∀ x ∈ before.getLast?, x ≠ '/' ∧ x ≠ '=' ∧ x ≠ '-'
  | live, ending => ending = ['/', '>'] ∨ ending = ['>']

/-- Only the last character before it matters to an ending. -/
theorem ends_append (h : before' ≠ []) :
    k.Ends (before ++ before') ending ↔ k.Ends before' ending := by
  cases k with
  | selfClosing => exact Iff.rfl
  | opening =>
    obtain ⟨x, hx⟩ := Option.ne_none_iff_exists'.1 (List.getLast?_eq_none_iff.not.2 h)
    simp [Ends, List.getLast?_append, hx]
  | live => exact Iff.rfl

theorem Ends.head (h : k.Ends before ending) (rest : Text) :
    ∀ x ∈ (ending ++ rest).head?, x = '/' ∨ x = '>' := by
  intro x hx
  cases k with
  | selfClosing =>
    rw [show ending = ['/', '>'] from h] at hx
    simpa [eq_comm] using Or.inl hx
  | opening =>
    rw [show ending = ['>'] from h.1] at hx
    simpa [eq_comm] using Or.inr hx
  | live =>
    rcases h with rfl | rfl
    · simpa [eq_comm] using Or.inl hx
    · simpa [eq_comm] using Or.inr hx

theorem reads_eq_iff {mark : Text} : d.Reads (· = mark) e ↔ d.expect? mark = some e := by
  rw [Cursor.expect?_eq_some_iff]
  constructor
  · rintro ⟨_, rest, rfl, hr, rfl⟩
    exact ⟨⟨rest, hr.symm⟩, rfl⟩
  · rintro ⟨⟨rest, hr⟩, rfl⟩
    exact ⟨mark, rest, rfl, hr.symm, rfl⟩

/-- The grammar of a form ends a tag with the endings of the form. -/
theorem ending_eq_some_iff :
    k.grammar.ending d = some e ↔ d.Reads (k.Ends d.before.reverse) e := by
  cases k with
  | selfClosing => exact reads_eq_iff.symm
  | opening =>
    show bracketEnd? d = some e ↔ _
    unfold bracketEnd?
    rcases hb : d.before with _ | ⟨x, before⟩
    · show d.expect? ['>'] = some e ↔ _
      rw [← reads_eq_iff]
      exact ⟨fun h => h.imp fun t ht => ⟨ht, by simp⟩, fun h => h.imp fun t ht => ht.1⟩
    · by_cases hx : x = '/' ∨ x = '=' ∨ x = '-'
      · simp only [hx, if_true, reduceCtorEq, false_iff]
        rintro ⟨t, rest, ⟨-, ht⟩, -, -⟩
        have hx' := ht x (by simp)
        simp [hx'] at hx
      · have hx' : ∀ y ∈ (x :: before).reverse.getLast?, y ≠ '/' ∧ y ≠ '=' ∧ y ≠ '-' := by
          intro y hy
          obtain rfl : x = y := by simpa using hy
          simpa only [not_or] using hx
        simp only [if_neg hx]
        rw [← reads_eq_iff]
        exact ⟨fun h => h.imp fun t ht => ⟨ht, hx'⟩, fun h => h.imp fun t ht => ht.1⟩
  | live =>
    show eitherEnd? d = some e ↔ _
    simp only [eitherEnd?, Option.orElse_eq_orElse, Option.orElse_eq_or, Option.or_eq_some_iff,
      ← reads_eq_iff]
    constructor
    · rintro (h | ⟨-, h⟩)
      · exact h.imp fun t ht => Or.inl ht
      · exact h.imp fun t ht => Or.inr ht
    · rintro ⟨t, rest, rfl | rfl, hr, rfl⟩
      · exact Or.inl ⟨_, rest, rfl, hr, rfl⟩
      · refine Or.inr ⟨?_, _, rest, rfl, hr, rfl⟩
        rw [Cursor.expect?_eq_none_iff, hr]
        simp

/-! ## Heads -/

def mark? : Form → Cursor → Option Cursor
  | selfClosing, c => afterComponentMark? c
  | opening, c => afterComponentMark? c
  | live, c => c.expect? liveMark

def head? (k : Form) (c : Cursor) : Option Head :=
  ((afterBracket? isSpace c).bind k.mark?).map namedHead

theorem heads_grammar (k : Form) : k.grammar.heads = [k.head?] := by
  have h : ∀ {α β γ : Type} (x : Option α) (f : α → Option β) (g : β → γ),
      (do let a ← x; let b ← f a; return g b) = (x.bind f).map g := by
    intro α β γ x f g
    cases x with
    | none => rfl
    | some a => exact Option.map_eq_bind.symm
  cases k with
  | selfClosing => exact congrArg (fun f => [f]) (funext fun c => h _ _ _)
  | opening => exact congrArg (fun f => [f]) (funext fun c => h _ _ _)
  | live => exact congrArg (fun f => [f]) (funext fun c => h _ _ _)

theorem mark?_eq_some_iff :
    k.mark? c = some d ↔ ∃ mark ∈ k.marks, mark <+: c.rest ∧ d = c.advance mark.length := by
  have hx : afterComponentMark? c = some d ↔
      ∃ mark ∈ [['x', '-'], ['x', ':']], mark <+: c.rest ∧ d = c.advance mark.length := by
    simp only [afterComponentMark?, Option.orElse_eq_orElse, Option.orElse_eq_or,
      Option.or_eq_some_iff, Cursor.expect?_eq_some_iff, Cursor.expect?_eq_none_iff,
      List.mem_cons, List.not_mem_nil, or_false, exists_eq_or_imp, exists_eq_left]
    constructor
    · rintro (h | ⟨-, h⟩)
      · exact Or.inl h
      · exact Or.inr h
    · rintro (h | ⟨h, rfl⟩)
      · exact Or.inl h
      · refine Or.inr ⟨fun h' => ?_, h, rfl⟩
        have := List.prefix_of_prefix_length_le h h' (Nat.le_refl 2)
        simp at this
  cases k with
  | selfClosing => exact hx
  | opening => exact hx
  | live => simp [mark?, marks, Cursor.expect?_eq_some_iff]

/-- The letter that the marks of a form begin with. -/
def initial : Form → Char
  | selfClosing => 'x'
  | opening => 'x'
  | live => 'l'

theorem exists_of_mem_marks {mark : Text} (h : mark ∈ k.marks) :
    ∃ t, mark = k.initial :: t := by
  cases k with
  | live =>
    obtain rfl : mark = liveMark := by simpa [marks] using h
    exact ⟨"ivewire:".toList, by decide⟩
  | selfClosing | opening =>
    simp only [marks, List.mem_cons, List.not_mem_nil, or_false] at h
    rcases h with rfl | rfl
    · exact ⟨_, rfl⟩
    · exact ⟨_, rfl⟩

end Form

theorem afterBracket?_eq_some_iff {isGap : Char → Bool} :
    afterBracket? isGap c = some d ↔
      ∃ gap rest, c.rest = '<' :: (gap ++ rest) ∧ (∀ x ∈ gap, isGap x = true) ∧
        Stops isGap rest ∧ d = c.advance (gap.length + 1) := by
  unfold afterBracket?
  rw [Option.map_eq_some_iff]
  constructor
  · rintro ⟨c', hc', rfl⟩
    obtain ⟨⟨rest', hr⟩, rfl⟩ := Cursor.expect?_eq_some_iff.1 hc'
    have hr' : (c.advance ['<'].length).rest = rest' := Cursor.rest_advance_append hr.symm
    obtain ⟨gap, rest, h₁, h₂, h₃, h₄⟩ :=
      (c.advance ['<'].length).exists_skipWhile isGap
    refine ⟨gap, rest, ?_, h₂, h₃, ?_⟩
    · rw [← h₁, hr', ← hr]
      rfl
    · rw [h₄, Cursor.advance_advance, Nat.add_comm]
      rfl
  · rintro ⟨gap, rest, hr, hg, hs, rfl⟩
    have hr' : c.rest = ['<'] ++ (gap ++ rest) := hr
    refine ⟨c.advance ['<'].length, Cursor.expect?_append hr', ?_⟩
    rw [Cursor.skipWhile_append (Cursor.rest_advance_append hr') hg hs,
      Cursor.advance_advance, Nat.add_comm]
    rfl

/-! ## Parts of a tag -/

/-- The parts of a tag in their order; a bracket stands before them. -/
structure Parts where
  gap : Text
  mark : Text
  name : Text
  attributes : Text
  blanks : Text
  ending : Text

namespace Parts

/-- A tag up to its name. -/
def head (p : Parts) : Text :=
  '<' :: (p.gap ++ p.mark ++ p.name)

/-- A tag up to its ending. -/
def body (p : Parts) : Text :=
  p.head ++ (p.attributes ++ p.blanks)

def text (p : Parts) : Text :=
  p.body ++ p.ending

/-- The parts make a tag of the form, with characters of the class `isGap` before its mark and
blanks of the class `blank` elsewhere. -/
structure Derives (isGap blank : Char → Bool) (k : Form) (p : Parts) : Prop where
  gap : ∀ x ∈ p.gap, isGap x = true
  mark : p.mark ∈ k.marks
  name : ∀ x ∈ p.name, isTagNameChar x = true
  attributes : AttributeList blank k.grammar p.attributes
  blanks : ∀ x ∈ p.blanks, blank x = true
  ending : k.Ends p.body p.ending

end Parts

variable {k : Form} {p : Parts} {head : Head}

/-- A head takes the whole gap and the whole name. -/
theorem Form.head?_eq_some_iff :
    k.head? c = some head ↔
      ∃ gap mark name rest, c.rest = '<' :: (gap ++ mark ++ name) ++ rest ∧
        (∀ x ∈ gap, isSpace x = true) ∧ mark ∈ k.marks ∧
        (∀ x ∈ name, isTagNameChar x = true) ∧ Stops isTagNameChar rest ∧
        head = { name, stop := c.advance ('<' :: (gap ++ mark ++ name)).length } := by
  simp only [Form.head?, Option.map_eq_some_iff, Option.bind_eq_some_iff,
    afterBracket?_eq_some_iff, Form.mark?_eq_some_iff]
  constructor
  · rintro ⟨_, ⟨_, ⟨gap, rest₁, hr, hg, -, rfl⟩, mark, hm, ⟨rest₂, hr₂⟩, rfl⟩, rfl⟩
    have hr₁ : c.rest = ('<' :: gap) ++ rest₁ := hr
    rw [show gap.length + 1 = ('<' :: gap).length from rfl,
      Cursor.rest_advance_append hr₁] at hr₂
    have hr₃ : c.rest = ('<' :: gap ++ mark) ++ rest₂ := by
      rw [hr₁, ← hr₂, List.append_assoc]
    have hc : (c.advance (gap.length + 1)).advance mark.length =
        c.advance ('<' :: gap ++ mark).length := by
      rw [Cursor.advance_advance]
      simp only [List.length_append, List.length_cons]
    rw [hc]
    obtain ⟨name, rest, h₁, h₂, h₃, h₄⟩ :=
      (c.advance ('<' :: gap ++ mark).length).exists_skipWhile isTagNameChar
    have hr₄ : rest₂ = name ++ rest := (Cursor.rest_advance_append hr₃).symm.trans h₁
    refine ⟨gap, mark, name, rest, ?_, hg, hm, h₂, h₃, ?_⟩
    · simp [hr₃, hr₄]
    · rw [namedHead, h₄, Cursor.upTo_advance_append h₁, Cursor.advance_advance]
      congr 2
      simp only [List.length_append, List.length_cons]
      omega
  · rintro ⟨gap, mark, name, rest, hr, hg, hm, hn, hs, rfl⟩
    obtain ⟨t, rfl⟩ := Form.exists_of_mem_marks hm
    have hx : isSpace k.initial = false := by cases k <;> decide
    have hr₁ : c.rest = ('<' :: gap) ++ (k.initial :: t ++ (name ++ rest)) := by simp [hr]
    have hr₂ : c.rest = ('<' :: gap ++ k.initial :: t) ++ (name ++ rest) := by simp [hr]
    have hc : (c.advance ('<' :: gap).length).advance (k.initial :: t).length =
        c.advance ('<' :: gap ++ k.initial :: t).length := by
      rw [Cursor.advance_advance, List.length_append]
    have hr₃ := Cursor.rest_advance_append hr₂
    refine ⟨c.advance ('<' :: gap ++ k.initial :: t).length,
      ⟨c.advance ('<' :: gap).length, ⟨gap, _, hr₁, hg, stops_cons.2 hx, rfl⟩,
        k.initial :: t, hm, ?_, hc.symm⟩, ?_⟩
    · rw [Cursor.rest_advance_append hr₁]
      exact List.prefix_append _ _
    · rw [namedHead, Cursor.skipWhile_append hr₃ hn hs, Cursor.upTo_advance_append hr₃,
        Cursor.advance_advance]
      congr 2
      simp only [List.length_append, List.length_cons]
      omega

theorem Form.tagAt?_grammar (k : Form) (c : Cursor) :
    k.grammar.tagAt? c = (k.head? c).bind (k.grammar.complete? c) := by
  rw [Grammar.tagAt?, k.heads_grammar]
  simp [List.findSome?_cons]
  cases (k.head? c).bind (k.grammar.complete? c) <;> rfl

theorem Grammar.hit?_eq_some_iff {item : Tag} {n : Nat} :
    g.hit? c = some (item, n) ↔
      g.mayBegin c = true ∧ g.tagAt? c = some item ∧ n = item.stop - item.start := by
  unfold Grammar.hit?
  split
  · next hb =>
    rw [Option.map_eq_some_iff]
    constructor
    · rintro ⟨tag, ht, he⟩
      obtain ⟨rfl, rfl⟩ := Prod.mk.inj he
      exact ⟨hb, ht, rfl⟩
    · rintro ⟨-, ht, rfl⟩
      exact ⟨item, ht, rfl⟩
  · next hb => simp [hb]

/-! ## Recognition -/

/-- What is found is a tag by the grammar. -/
theorem derives_of_tagAt?_eq_some {tag : Tag} (h : k.grammar.tagAt? c = some tag) :
    tag.start = c.pos ∧
      ∃ p : Parts, p.Derives isSpace isBlank k ∧ p.text <+: c.rest ∧ tag.name = p.name ∧
        tag.attributes = p.attributes ++ p.blanks ∧ tag.stop = c.pos + p.text.length := by
  rw [k.tagAt?_grammar, Option.bind_eq_some_iff] at h
  obtain ⟨head, hh, h⟩ := h
  obtain ⟨gap, mark, name, rest, hr, hg, hm, hn, -, rfl⟩ := Form.head?_eq_some_iff.1 hh
  obtain ⟨span, hs, rfl⟩ := Option.map_eq_some_iff.1 h
  rw [Grammar.search_eq_scan] at hs
  obtain ⟨attributes, blanks, rest', ha, hb, hr', hspan, hend⟩ := reads_of_scan_eq_some hs
  obtain ⟨ending, rest'', he, hr'', hstop⟩ := Form.ending_eq_some_iff.1 hend
  -- the text from the bracket on, cut at the head, at the blanks and at the ending
  rw [Cursor.rest_advance_append hr] at hr'
  subst hr'
  have hbody : c.rest = '<' :: (gap ++ mark ++ name) ++ (attributes ++ blanks) ++ rest' :=
    hr.trans (List.append_assoc _ _ _).symm
  have hspan' : span.attributesEnd =
      c.advance ('<' :: (gap ++ mark ++ name) ++ (attributes ++ blanks)).length := by
    rw [hspan, Cursor.advance_advance, ← List.length_append]
  rw [hspan'] at hr'' hstop he
  rw [Cursor.rest_advance_append hbody] at hr''
  subst hr''
  rw [Cursor.before_advance_append hbody, List.reverse_append, List.reverse_reverse,
    Form.ends_append (by simp)] at he
  let p : Parts := ⟨gap, mark, name, attributes, blanks, ending⟩
  have ht : c.rest = p.text ++ rest'' := by rw [hbody, ← List.append_assoc]; rfl
  refine ⟨rfl, p, ⟨hg, hm, hn, ha, hb, he⟩, ⟨rest'', ht.symm⟩, rfl, ?_, ?_⟩
  · show Cursor.upTo _ span.attributesEnd = _
    rw [hspan]
    refine Cursor.upTo_advance_append (v := ending ++ rest'') ?_
    rw [Cursor.rest_advance_append hr]
  · show span.tagEnd.pos = _
    rw [hstop, Cursor.advance_advance, ← List.length_append]
    exact Cursor.pos_advance_append ht

/-- Where a tag begins by the grammar, one is found. -/
theorem isSome_tagAt?_of_derives (hp : p.Derives isSpace isBlank k) (h : p.text <+: c.rest) :
    (k.grammar.tagAt? c).isSome := by
  obtain ⟨rest, hr⟩ := h
  have hr₁ : c.rest = p.head ++ (p.attributes ++ p.blanks ++ (p.ending ++ rest)) := by
    rw [← hr, Parts.text, Parts.body, List.append_assoc, List.append_assoc]
  have hr₂ : c.rest = p.body ++ (p.ending ++ rest) := by
    rw [← hr, Parts.text, List.append_assoc]
  have hx := hp.ending.head rest
  have hd : ∀ x ∈ (p.attributes ++ p.blanks ++ (p.ending ++ rest)).head?,
      isDelimiter x = true := by
    refine hp.attributes.isDelimiter_head hp.blanks fun x hx' => ?_
    rcases hx x hx' with rfl | rfl <;> decide
  -- the name ends at the delimiter that follows it
  have hs : Stops isTagNameChar (p.attributes ++ p.blanks ++ (p.ending ++ rest)) :=
    stops_of_delimited (fun x hx' => isDelimiter_of_isAttributeNameChar
      (isAttributeNameChar_of_isTagNameChar hx')) hd
  have hh := Form.head?_eq_some_iff.2
    ⟨p.gap, p.mark, p.name, _, hr₁, hp.gap, hp.mark, hp.name, hs, rfl⟩
  have hbody : (c.advance p.head.length).advance (p.attributes ++ p.blanks).length =
      c.advance p.body.length := by
    rw [Cursor.advance_advance, ← List.length_append, Parts.body]
  have he : (k.grammar.ending (c.advance p.body.length)).isSome := by
    refine Option.isSome_iff_exists.2 ⟨_, Form.ending_eq_some_iff.2
      ⟨p.ending, rest, ?_, Cursor.rest_advance_append hr₂, rfl⟩⟩
    rw [Cursor.before_advance_append hr₂, List.reverse_append, List.reverse_reverse]
    exact (Form.ends_append (by simp [Parts.body, Parts.head])).2 hp.ending
  have hscan : (k.grammar.scan (c.advance p.head.length)).isSome :=
    isSome_scan hp.attributes hp.blanks (Cursor.rest_advance_append hr₁) hx (hbody ▸ he)
  rw [k.tagAt?_grammar, hh, Option.bind_some, Grammar.complete?, Option.isSome_map,
    Grammar.search_eq_scan]
  exact hscan

/-- **Tags are recognised exactly by their grammar.** At every position of a text a tag of a form
is found if and only if a tag derived by the grammar begins there; what is found begins at that
position, and its name, its attributes and its end are those of such a tag. The gap behind the
bracket has spaces of ASCII only, and elsewhere every blank is one. -/
theorem tagAt?_isSome_iff_derives (k : Form) (s : Text) (n : Nat) :
    ((k.grammar.tagAt? (Cursor.ofPos s n)).isSome ↔
      ∃ p : Parts, p.Derives isSpace isBlank k ∧ p.text <+: s.drop n) ∧
    ∀ tag, k.grammar.tagAt? (Cursor.ofPos s n) = some tag →
      tag.start = n ∧
        ∃ p : Parts, p.Derives isSpace isBlank k ∧ p.text <+: s.drop n ∧ tag.name = p.name ∧
          tag.attributes = p.attributes ++ p.blanks ∧ tag.stop = n + p.text.length := by
  rw [← Cursor.rest_ofPos]
  refine ⟨⟨fun h => ?_, ?_⟩, fun tag h => ?_⟩
  · obtain ⟨tag, h⟩ := Option.isSome_iff_exists.1 h
    obtain ⟨-, p, hp, hr, -⟩ := derives_of_tagAt?_eq_some h
    exact ⟨p, hp, hr⟩
  · rintro ⟨p, hp, hr⟩
    exact isSome_tagAt?_of_derives hp hr
  · obtain ⟨hs, p, hp, hr, hn, ha, he⟩ := derives_of_tagAt?_eq_some h
    have hpos : (Cursor.ofPos s n).pos = n := by
      refine Cursor.pos_ofPos ?_
      have hl := hr.length_le
      rw [Cursor.rest_ofPos, List.length_drop] at hl
      simp only [Parts.text, Parts.body, Parts.head, List.length_append, List.length_cons] at hl
      omega
    rw [hpos] at hs he
    exact ⟨hs, p, hp, hr, hn, ha, he⟩

/-- No single class of blanks, apart from the characters of names, describes both the gap behind
the bracket and the blanks among the attributes: a no-break space may stand before the end of a
tag and not before its mark. -/
theorem no_class_of_blanks_derives :
    ¬ ∃ blank : Char → Bool, (∀ x, isTagNameChar x = true → blank x = false) ∧
      ∀ (s : Text) (n : Nat), (Grammar.selfClosing.tagAt? (Cursor.ofPos s n)).isSome ↔
        ∃ p : Parts, p.Derives blank blank .selfClosing ∧ p.text <+: s.drop n := by
  rintro ⟨blank, hname, h⟩
  by_cases hb : blank '\u00a0' = true
  · have hf :
        (Grammar.selfClosing.tagAt? (Cursor.ofPos "<\u00a0x-a/>".toList 0)).isSome = false := by
      decide
    have ht := (h "<\u00a0x-a/>".toList 0).2
      ⟨⟨['\u00a0'], ['x', '-'], ['a'], [], [], ['/', '>']⟩,
        ⟨by simp [hb], by decide, forall_mem_of_all (by decide), .nil, by simp, rfl⟩, by decide⟩
    rw [hf] at ht
    simp at ht
  · have hf : (Grammar.selfClosing.tagAt? (Cursor.ofPos "<x-a\u00a0/>".toList 0)).isSome :=
      isSome_tagAt?_of_derives (k := .selfClosing)
        (p := ⟨[], ['x', '-'], ['a'], [], ['\u00a0'], ['/', '>']⟩)
        ⟨by simp, by decide, forall_mem_of_all (by decide), .nil, forall_mem_of_all (by decide),
          rfl⟩ (by decide)
    obtain ⟨p, hp, rest, ht⟩ := (h "<x-a\u00a0/>".toList 0).1 hf
    -- the ending is the end of the text, so the no-break space is in one of the other parts
    have hbody : p.gap ++ p.mark ++ p.name ++ (p.attributes ++ p.blanks) =
        ['x', '-', 'a', '\u00a0'] := by
      have he : p.ending = ['/', '>'] := hp.ending
      have hw : p.gap ++ p.mark ++ p.name ++ (p.attributes ++ p.blanks) ++ ('/' :: '>' :: rest) =
          ['x', '-', 'a', '\u00a0'] ++ ['/', '>'] := by
        simpa [Parts.text, Parts.body, Parts.head, he] using ht
      rcases List.append_eq_append_iff.1 hw with ⟨u, hu, hu'⟩ | ⟨u, hu, hu'⟩
      · rcases u with _ | ⟨y, u⟩
        · simpa using hu.symm
        · obtain ⟨rfl, -⟩ := List.cons.inj hu'
          have hm : '/' ∈ ['x', '-', 'a', '\u00a0'] := by simp [hu]
          exact absurd hm (by decide)
      · have hl := congrArg List.length hu'
        have hu₀ : u = [] := by
          rw [← List.length_eq_zero_iff]
          simp at hl
          omega
        simpa [hu₀] using hu
    have hblank : ∀ y ∈ ['x', '-', 'a', '\u00a0'], blank y = false := by
      simp only [List.mem_cons, List.not_mem_nil, or_false, forall_eq_or_imp, forall_eq]
      exact ⟨hname _ (by decide), hname _ (by decide), hname _ (by decide), by simpa using hb⟩
    have hm : '\u00a0' ∈ ['x', '-', 'a', '\u00a0'] := by decide
    rw [← hbody] at hblank hm
    rw [List.mem_append, List.mem_append, List.mem_append, List.mem_append] at hm
    rcases hm with ((hm | hm) | hm) | hm | hm
    · exact hb (hp.gap _ hm)
    · have hmark : p.mark = ['x', '-'] ∨ p.mark = ['x', ':'] := by simpa [Form.marks] using hp.mark
      rcases hmark with e | e <;> simp [e] at hm
    · exact absurd (hp.name _ hm) (by decide)
    · obtain ⟨y, hy, hby⟩ := hp.attributes.exists_blank (List.ne_nil_of_mem hm)
      rw [hblank y (by simp [hy])] at hby
      simp at hby
    · exact hb (hp.blanks _ hm)

end ComponentTags.Tag
