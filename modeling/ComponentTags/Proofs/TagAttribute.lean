import ComponentTags.Proofs.Recognition
import ComponentTags.Proofs.Written
import Mathlib.Data.List.Basic

/-!
# Attributes inside tags

A tag with its attributes in writing, a space before each, is scanned attribute by attribute, and
no choice is open: wherever else an attribute could end, the tag cannot go on.

1. Every end that `attributeEnds` lists at an attribute in writing is the end of that attribute,
   or an equals sign, a dollar or a parenthesis follows it (`eq_or_dead`).
2. So `scan` passes over the attribute (`scan_attribute`), over a list of them (`scan_printed`),
   and comes to the ending (`scan_eq_finish`).
-/

namespace ComponentTags

open Text

/-- The attribute may stand in a tag: it has no `<` and is no flag with a hyphen at its end.
Variables and calls stand in the tags of components. -/
def Written.InTag (component : Bool) : Written → Prop
  | literal _ value => '<' ∉ value
  | bound _ value => '<' ∉ value
  | boundVariable _ => component = true
  | flag name => name.getLast? ≠ some '-'
  | call _ arguments => component = true ∧ '<' ∉ arguments
  | bag _ => False

instance (component : Bool) (w : Written) : Decidable (w.InTag component) :=
  match w with
  | .literal _ value => inferInstanceAs (Decidable ('<' ∉ value))
  | .bound _ value => inferInstanceAs (Decidable ('<' ∉ value))
  | .boundVariable _ => inferInstanceAs (Decidable (component = true))
  | .flag name => inferInstanceAs (Decidable (name.getLast? ≠ some '-'))
  | .call _ arguments => inferInstanceAs (Decidable (component = true ∧ '<' ∉ arguments))
  | .bag _ => isFalse id

/-- An attribute of a tag, of a component or of another kind. -/
structure TagAttribute (component : Bool) where
  written : Written
  proper : written.Proper
  inTag : written.InTag component

namespace TagAttribute

variable {component : Bool} {a : TagAttribute component} {g : Tag.Grammar} {c d e : Cursor}
  {u v w : Text} {x : Char}

def text (a : TagAttribute component) : Text :=
  a.written.text

/-- Attributes in writing, with a space before each. -/
def printed (attributes : List (TagAttribute component)) : Text :=
  attributes.flatMap fun a => ' ' :: a.text

theorem printed_cons (a : TagAttribute component) (rest : List (TagAttribute component)) :
    printed (a :: rest) = ' ' :: a.text ++ printed rest := rfl

/-! ## The characters of an attribute -/

theorem not_mem_text (a : TagAttribute component) : '<' ∉ a.text := by
  have hname : ∀ {n : Text}, IsRun Written.isPlainNameChar n → '<' ∉ n :=
    fun hn => Written.not_mem_of_isRun hn (by decide)
  have hquoted : ∀ {t : Text}, '<' ∉ t → '<' ∉ Written.quotedValue t := by
    intro t ht
    simpa [Written.quotedValue] using ht
  obtain ⟨w, hp, ht⟩ := a
  cases w with
  | literal name value => exact List.not_mem_append (hname hp.1) (hquoted ht)
  | bound name value =>
    exact List.not_mem_cons_of_ne_of_not_mem (by decide)
      (List.not_mem_append (hname hp.1) (hquoted ht))
  | boundVariable name =>
    have hn : '<' ∉ name := Written.not_mem_of_isRun hp (by decide)
    simpa [text, Written.text] using hn
  | flag name => exact hname hp
  | call directive arguments =>
    have hn : '<' ∉ directive.name := Written.not_mem_of_isRun directive.isRun_name (by decide)
    exact List.not_mem_append (List.not_mem_cons_of_ne_of_not_mem (by decide) hn) ht.2
  | bag inner => exact ht.elim

theorem exists_text_eq_cons (a : TagAttribute component) :
    ∃ x t, a.text = x :: t ∧ isAttributeNameChar x = true := by
  obtain ⟨w, hp, ht⟩ := a
  cases w with
  | literal name value =>
    obtain ⟨x, t, rfl, hx⟩ := (Written.isRun_attributeName hp.1).exists_cons
    exact ⟨x, _, rfl, hx⟩
  | bound name value => exact ⟨':', _, rfl, by decide⟩
  | boundVariable name => exact ⟨':', _, rfl, by decide⟩
  | flag name => exact (Written.isRun_attributeName hp).exists_cons
  | call directive arguments => exact ⟨'@', _, rfl, by decide⟩
  | bag inner => exact ht.elim

/-- A bracket behind an attribute ends a tag. -/
theorem getLast_text (a : TagAttribute component) :
    ∀ x ∈ a.text.getLast?, x ≠ '/' ∧ x ≠ '=' ∧ x ≠ '-' := by
  intro x hx
  obtain ⟨w, hp, ht⟩ := a
  cases w with
  | literal name value =>
    obtain rfl : '"' = x := by
      simpa [text, Written.text, Written.quotedValue, List.getLast?_cons, List.getLast?_append]
        using hx
    decide
  | bound name value =>
    obtain rfl : '"' = x := by
      simpa [text, Written.text, Written.quotedValue, List.getLast?_cons, List.getLast?_append]
        using hx
    decide
  | boundVariable name =>
    have hl : (Written.boundVariable name).text.getLast? = name.getLast? := by
      rw [Written.text, List.getLast?_cons_cons, List.getLast?_cons_of_ne_nil hp.1]
    rw [text, hl] at hx
    have hw := hp.2 x (List.mem_of_getLast? hx)
    refine ⟨?_, ?_, ?_⟩ <;> rintro rfl <;> exact absurd hw (by decide)
  | flag name =>
    have hw := hp.2 x (List.mem_of_getLast? hx)
    refine ⟨?_, ?_, fun e => ht (e ▸ hx)⟩ <;> rintro rfl <;> exact absurd hw (by decide)
  | call directive arguments =>
    obtain ⟨inner, rfl⟩ := Group.IsGroup.exists_eq hp
    obtain rfl : ')' = x := by
      simpa [text, Written.text, List.getLast?_cons, List.getLast?_append] using hx
    decide
  | bag inner => exact ht.elim

theorem not_mem_printed (l : List (TagAttribute component)) : '<' ∉ printed l := by
  intro h
  obtain ⟨a, -, h⟩ := List.mem_flatMap.1 h
  rcases List.mem_cons.1 h with h | h
  · exact absurd h (by decide)
  · exact a.not_mem_text h

theorem isDelimiter_head_printed (l : List (TagAttribute component))
    (hv : ∀ x ∈ v.head?, Tag.isDelimiter x = true) :
    ∀ x ∈ (printed l ++ v).head?, Tag.isDelimiter x = true := by
  cases l with
  | nil => exact hv
  | cons a l =>
    intro x hx
    obtain rfl : ' ' = x := by simpa [printed_cons] using hx
    decide

theorem getLast_append_printed (l : List (TagAttribute component))
    (hne : u ≠ []) (hu : ∀ x ∈ u.getLast?, x ≠ '/' ∧ x ≠ '=' ∧ x ≠ '-') :
    ∀ x ∈ (u ++ printed l).getLast?, x ≠ '/' ∧ x ≠ '=' ∧ x ≠ '-' := by
  induction l generalizing u with
  | nil => simpa [printed] using hu
  | cons a l ih =>
    rw [printed_cons, ← List.append_assoc]
    refine ih (by simp) fun x hx => a.getLast_text x ?_
    obtain ⟨y, t, ht, -⟩ := a.exists_text_eq_cons
    rw [List.getLast?_append_of_ne_nil _ (by simp)] at hx
    rwa [ht, List.getLast?_cons_cons, ← ht] at hx

/-! ## The ends of an attribute -/

theorem isAttribute (a : TagAttribute component)
    (hg : component = true → g.directives = true ∧ g.boundVariables = true) :
    Tag.Attribute isBlank g a.text := by
  obtain ⟨w, hp, ht⟩ := a
  cases w with
  | literal name value =>
    exact .value (Written.isRun_attributeName hp.1) (.quoted (Or.inl rfl) hp.2)
  | bound name value =>
    exact .value (Written.isRun_colon hp.1) (.quoted (Or.inl rfl) hp.2)
  | boundVariable name => exact .boundVariable (hg ht).2 hp
  | flag name => exact .name (Written.isRun_attributeName hp)
  | call directive arguments =>
    cases directive with
    | classes => exact .classCall (hg ht.1).1 ⟨arguments, hp, rfl⟩
    | styles => exact .styleCall (hg ht.1).1 ⟨arguments, hp, rfl⟩
  | bag inner => exact ht.elim

/-- A call at the front of an attribute is the attribute. -/
theorem text_eq_of_call (directive : StyleCall) (ht : Tag.IsCall directive.name u)
    (h : a.text ++ v = u ++ w) : u = a.text := by
  obtain ⟨arguments, harg, rfl⟩ := ht
  have hhead : ∀ {y : Char} {t : Text}, a.text = y :: t → y = '@' := by
    intro y t hy
    rw [hy] at h
    exact (List.cons.inj h).1
  obtain ⟨w', hp, hin⟩ := a
  cases w' with
  | literal name value =>
    obtain ⟨y, n, rfl, hy⟩ := hp.1.exists_cons
    obtain rfl := hhead rfl
    exact absurd hy (by decide)
  | bound name value => exact absurd (hhead rfl) (by decide)
  | boundVariable name => exact absurd (hhead rfl) (by decide)
  | flag name =>
    obtain ⟨y, n, rfl, hy⟩ := hp.exists_cons
    obtain rfl := hhead rfl
    exact absurd hy (by decide)
  | call directive' arguments' =>
    have hlen : directive.name.length = directive'.name.length := by
      cases directive <;> cases directive' <;> decide
    have h' : directive'.name ++ (arguments' ++ v) = directive.name ++ (arguments ++ w) := by
      simpa [text, Written.text] using h
    obtain ⟨hn, hrest⟩ := List.append_inj h' hlen.symm
    obtain rfl : arguments' = arguments := Group.IsGroup.eq_of_append_eq hp harg hrest
    rw [← hn]
    rfl
  | bag inner => exact hin.elim

/-- A value in double quotes is the only value that it begins with. -/
theorem eq_quotedValue {value : Text} (hq : '"' ∉ value) (hu : Tag.IsValue u)
    (h : Written.quotedValue value ++ v = u ++ w) : u = Written.quotedValue value := by
  cases hu with
  | @quoted quote inner hquote hinner =>
    have h' : '"' = quote ∧ value ++ '"' :: v = inner ++ quote :: w := by
      simpa [Written.quotedValue] using h
    obtain ⟨rfl, h'⟩ := h'
    have heq := congrArg (List.takeWhile (· != '"')) h'
    rw [takeWhile_ne_append hq, takeWhile_ne_append hinner] at heq
    rw [heq]
    rfl
  | @unquoted inner hinner =>
    obtain ⟨y, t, rfl, hy⟩ := hinner.exists_cons
    obtain rfl : '"' = y := (List.cons.inj (List.cons.inj h).2).1
    exact absurd hy (by decide)

/-- A cursor from which no tag goes on: the character at it begins no blank and no ending. -/
def Dead (e : Cursor) : Prop :=
  ∃ x rest, e.rest = x :: rest ∧ (x = '=' ∨ x = '$' ∨ x = '(')

theorem eq_or_dead_of_mem_namedEnds (hr : d.rest = a.text ++ v)
    (hv : ∀ x ∈ v.head?, Tag.isDelimiter x = true) (he : e ∈ Tag.namedEnds d) :
    e = d.advance a.text.length ∨ Dead e := by
  -- behind a name with a value: the end of the value, or the equals sign
  have hquoted : ∀ {n value : Text}, IsRun isAttributeNameChar n → '"' ∉ value →
      a.text = n ++ Written.quotedValue value → e = d.advance a.text.length ∨ Dead e := by
    intro n value hn hq ht
    rw [ht, List.append_assoc] at hr
    rw [Tag.namedEnds_eq hn hr (stops_cons.2 (by decide)), List.mem_append, List.mem_singleton,
      Tag.mem_valueEnds_iff] at he
    rcases he with ⟨u, rest, hu, hr', rfl⟩ | rfl
    · rw [Cursor.rest_advance_append hr] at hr'
      obtain rfl := eq_quotedValue hq hu hr'
      left
      rw [Cursor.advance_advance, ht, List.length_append]
    · exact Or.inr ⟨'=', _, Cursor.rest_advance_append hr, Or.inl rfl⟩
  -- behind a name without one: its end, since no equals sign follows
  have hplain : ∀ {n rest : Text}, IsRun isAttributeNameChar n → d.rest = n ++ rest →
      (∀ x ∈ rest.head?, isAttributeNameChar x = false ∧ x ≠ '=') → e = d.advance n.length := by
    intro n rest hn hr hrest
    rw [Tag.namedEnds_eq hn hr fun x hx => (hrest x hx).1, List.mem_append, List.mem_singleton,
      Tag.mem_valueEnds_iff] at he
    rcases he with ⟨u, rest', hu, hr', -⟩ | rfl
    · obtain ⟨t, rfl⟩ := hu.exists_cons
      rw [Cursor.rest_advance_append hr] at hr'
      exact absurd rfl (hrest '=' (by simp [hr'])).2
    · rfl
  obtain ⟨w, hp, ht⟩ := a
  cases w with
  | literal name value => exact hquoted (Written.isRun_attributeName hp.1) hp.2 rfl
  | bound name value => exact hquoted (Written.isRun_colon hp.1) hp.2 rfl
  | boundVariable name =>
    have hr' : d.rest = [':'] ++ ('$' :: name ++ v) := hr
    right
    rw [hplain (by decide) hr' (by simp; decide)]
    exact ⟨'$', _, Cursor.rest_advance_append hr', Or.inr (Or.inl rfl)⟩
  | flag name =>
    refine Or.inl (hplain (Written.isRun_attributeName hp) hr fun x hx => ?_)
    have hx' := hv x hx
    refine ⟨?_, ?_⟩
    · by_contra h
      rw [Bool.not_eq_false] at h
      simp [Tag.isDelimiter_of_isAttributeNameChar h] at hx'
    · rintro rfl
      exact absurd hx' (by decide)
  | call directive arguments =>
    obtain ⟨inner, rfl⟩ := Group.IsGroup.exists_eq hp
    have hr' : d.rest = '@' :: directive.name ++ ('(' :: inner ++ [')'] ++ v) := by
      simpa [text, Written.text] using hr
    have hn : IsRun isAttributeNameChar ('@' :: directive.name) := by
      cases directive <;> decide
    right
    rw [hplain hn hr' (by simp; decide)]
    exact ⟨'(', _, Cursor.rest_advance_append hr', Or.inr (Or.inr rfl)⟩
  | bag inner => exact ht.elim

theorem eq_of_mem_variableEnds (hr : d.rest = a.text ++ v)
    (hv : ∀ x ∈ v.head?, Tag.isDelimiter x = true) (he : e ∈ Tag.variableEnds d) :
    e = d.advance a.text.length := by
  obtain ⟨u, rest, ⟨name', -, rfl⟩, hr', -⟩ := Tag.reads_of_mem_variableEnds he
  have h : a.text ++ v = ':' :: '$' :: (name' ++ rest) := hr.symm.trans hr'
  obtain ⟨w, hp, ht⟩ := a
  cases w with
  | literal name value =>
    obtain ⟨y, n, rfl, hy⟩ := hp.1.exists_cons
    obtain ⟨rfl, -⟩ := List.cons.inj h
    exact absurd hy (by decide)
  | bound name value =>
    obtain ⟨y, n, rfl, hy⟩ := hp.1.exists_cons
    obtain ⟨rfl, -⟩ := List.cons.inj (List.cons.inj h).2
    exact absurd hy (by decide)
  | boundVariable name =>
    have hs : Stops isWordChar v := Tag.stops_of_delimited
      (fun x hx => Tag.isDelimiter_of_isAttributeNameChar
        (isAttributeNameChar_of_isTagNameChar (isTagNameChar_of_isWordChar hx))) hv
    have hr'' : d.rest = ':' :: '$' :: (name ++ v) := hr
    have hends : Tag.variableEnds d = [d.advance (name.length + 2)] := by
      simp [Tag.variableEnds, hr'', takeWhile_append hp.2 hs, hp.1]
    rw [hends, List.mem_singleton] at he
    exact he
  | flag name =>
    obtain ⟨y, n, rfl, hy⟩ := hp.exists_cons
    obtain ⟨rfl, -⟩ := List.cons.inj h
    exact absurd hy (by decide)
  | call directive arguments => exact absurd (List.cons.inj h).1 (by decide)
  | bag inner => exact ht.elim

/-- **The ends of an attribute.** An attribute ends where it is written to end, or nothing can
follow. -/
theorem eq_or_dead (hr : d.rest = a.text ++ v) (hv : ∀ x ∈ v.head?, Tag.isDelimiter x = true)
    (he : e ∈ g.attributeEnds d) : e = d.advance a.text.length ∨ Dead e := by
  rw [Tag.Grammar.attributeEnds, List.mem_append, List.mem_append] at he
  rcases he with (he | he) | he
  · split at he
    · rw [List.mem_append, List.mem_append, Tag.mem_callEnds_iff, Tag.mem_callEnds_iff,
        Tag.mem_bagEnds_iff] at he
      rcases he with (⟨u, w, hu, hr', rfl⟩ | ⟨u, w, hu, hr', rfl⟩) | ⟨u, w, hu, hr', rfl⟩
      · rw [text_eq_of_call .classes hu (hr.symm.trans hr')]
        exact Or.inl rfl
      · rw [text_eq_of_call .styles hu (hr.symm.trans hr')]
        exact Or.inl rfl
      · -- no attribute in a tag begins with a brace
        obtain ⟨blanks, inner, -, -, rfl⟩ := hu
        obtain ⟨x, t, hx, hname⟩ := a.exists_text_eq_cons
        rw [hx] at hr
        obtain ⟨rfl, -⟩ := List.cons.inj (hr.symm.trans hr')
        exact absurd hname (by decide)
    · simp at he
  · split at he
    · exact Or.inl (eq_of_mem_variableEnds hr hv he)
    · simp at he
  · exact eq_or_dead_of_mem_namedEnds hr hv he

end TagAttribute

namespace Tag

open TagAttribute

variable {component : Bool} {g : Grammar} {c : Cursor} {v blanks rest : Text} {x : Char}

/-- The grammar knows the attributes of tags of a component, or those of other tags, and its
endings begin with a slash or a bracket. -/
structure Grammar.Takes (g : Grammar) (component : Bool) : Prop where
  known : component = true → g.directives = true ∧ g.boundVariables = true
  ending : ∀ c e, g.ending c = some e → ∃ x rest, c.rest = x :: rest ∧ (x = '/' ∨ x = '>')

/-! ## Scanning -/

theorem Grammar.Takes.finish_eq_none (hg : g.Takes component) (hr : c.rest = x :: rest)
    (hx : x ≠ '/' ∧ x ≠ '>') : g.finish c = none := by
  cases he : g.ending c with
  | none => simp [Grammar.finish, he]
  | some e =>
    obtain ⟨y, rest', hr', hy⟩ := hg.ending c e he
    rw [hr] at hr'
    obtain ⟨rfl, -⟩ := List.cons.inj hr'
    rcases hy with rfl | rfl
    · exact absurd rfl hx.1
    · exact absurd rfl hx.2

theorem Grammar.Takes.scan_of_dead (hg : g.Takes component) (h : Dead c) : g.scan c = none := by
  obtain ⟨x, rest, hr, hx⟩ := h
  have hb : isBlank x = false ∧ x ≠ '/' ∧ x ≠ '>' := by
    rcases hx with rfl | rfl | rfl <;> decide
  have hs : c.skipWhile isBlank = c := by
    apply Cursor.skipWhile_of_stops
    rw [hr]
    exact stops_cons.2 hb.1
  rw [g.scan_eq_or, hs, hg.finish_eq_none hr hb.2, Grammar.endsAfter,
    if_neg (Nat.lt_irrefl c.pos)]
  rfl

theorem isDelimiter_head_blanks (hb : ∀ y ∈ blanks, isBlank y = true) (hx : x = '/' ∨ x = '>')
    (rest : Text) : ∀ y ∈ (blanks ++ x :: rest).head?, isDelimiter y = true := by
  intro y hy
  cases blanks with
  | nil =>
    obtain rfl : x = y := by simpa using hy
    rcases hx with rfl | rfl <;> decide
  | cons b blanks =>
    obtain rfl : b = y := by simpa using hy
    simp [isDelimiter, hb b (by simp)]

/-- The first answer is that of a member, if all others have the same or none. -/
theorem findSome?_eq_of_mem {α β : Type} {f : α → Option β} {a : α} {l : List α} (ha : a ∈ l)
    (h : ∀ b ∈ l, b = a ∨ f b = none) : l.findSome? f = f a := by
  cases hf : f a with
  | none =>
    refine List.findSome?_eq_none_iff.2 fun b hb => ?_
    rcases h b hb with rfl | hn
    · exact hf
    · exact hn
  | some y =>
    induction l with
    | nil => simp at ha
    | cons b l ih =>
      rw [List.findSome?_cons]
      rcases h b (by simp) with rfl | hb
      · rw [hf]
      · rw [hb]
        rcases List.mem_cons.1 ha with rfl | ha
        · rw [hf] at hb
          simp at hb
        · exact ih ha fun b' hb' => h b' (by simp [hb'])

theorem Grammar.Takes.scan_attribute (hg : g.Takes component) (a : TagAttribute component)
    (hr : c.rest = ' ' :: a.text ++ v) (hv : ∀ x ∈ v.head?, isDelimiter x = true) :
    g.scan c = g.scan (c.advance (' ' :: a.text).length) := by
  obtain ⟨x, t, hx, hname⟩ := a.exists_text_eq_cons
  have hblank := isBlank_of_isAttributeNameChar hname
  have hr₁ : c.rest = [' '] ++ (a.text ++ v) := hr
  have hs : c.skipWhile isBlank = c.advance 1 := by
    refine Cursor.skipWhile_append hr₁ (forall_mem_of_all (by decide)) ?_
    rw [hx]
    exact stops_cons.2 hblank
  have hrest : (c.advance 1).rest = a.text ++ v := Cursor.rest_advance_append hr₁
  have hpos : c.pos < (c.advance 1).pos := by
    have := Cursor.pos_advance_append hr₁
    simp only [List.length_singleton] at this
    omega
  have hdelim := isDelimiter_of_isAttributeNameChar hname
  have hfinish : g.finish (c.advance 1) = none := by
    have hr₂ : (c.advance 1).rest = x :: (t ++ v) := by
      rw [hrest, hx]
      rfl
    refine hg.finish_eq_none hr₂ ⟨?_, ?_⟩
    · rintro rfl
      exact absurd hdelim (by decide)
    · rintro rfl
      exact absurd hdelim (by decide)
  have hfind : (g.attributeEnds (c.advance 1)).findSome? g.scan =
      g.scan ((c.advance 1).advance a.text.length) := by
    refine findSome?_eq_of_mem
      (mem_attributeEnds_of_attribute (a.isAttribute hg.known) hrest hv) fun e he => ?_
    exact (eq_or_dead hrest hv he).imp_right hg.scan_of_dead
  rw [g.scan_eq_or, hs, hfinish, Grammar.endsAfter, if_pos hpos, hfind, Option.or_none,
    Cursor.advance_advance, Nat.add_comm]
  rfl

theorem Grammar.Takes.scan_printed (hg : g.Takes component) (l : List (TagAttribute component))
    (hr : c.rest = printed l ++ v) (hv : ∀ x ∈ v.head?, isDelimiter x = true) :
    g.scan c = g.scan (c.advance (printed l).length) := by
  induction l generalizing c with
  | nil => rfl
  | cons a l ih =>
    rw [printed_cons, List.append_assoc] at hr
    rw [hg.scan_attribute a hr (isDelimiter_head_printed l hv),
      ih (Cursor.rest_advance_append hr), Cursor.advance_advance, ← List.length_append]
    rfl

/-- **The end of the attributes.** Through its attributes and blanks a tag is scanned up to a
slash or a bracket. -/
theorem Grammar.Takes.scan_eq_finish (hg : g.Takes component)
    (l : List (TagAttribute component)) (hr : c.rest = printed l ++ (blanks ++ x :: rest))
    (hb : ∀ y ∈ blanks, isBlank y = true) (hx : x = '/' ∨ x = '>') :
    g.scan c = g.finish (c.advance (printed l ++ blanks).length) := by
  have hdelim : isDelimiter x = true ∧ isBlank x = false := by
    rcases hx with rfl | rfl <;> decide
  have hhead := isDelimiter_head_blanks hb hx rest
  have hr' := Cursor.rest_advance_append hr
  have hs : (c.advance (printed l).length).skipWhile isBlank =
      (c.advance (printed l).length).advance blanks.length :=
    Cursor.skipWhile_append hr' hb (stops_cons.2 hdelim.2)
  -- no attribute begins with a slash or a bracket
  have hends : g.attributeEnds ((c.advance (printed l).length).advance blanks.length) = [] := by
    refine List.eq_nil_iff_forall_not_mem.2 fun e he => ?_
    obtain ⟨a, w, ha, hra, -⟩ := reads_attribute_of_mem_attributeEnds he
    obtain ⟨y, t, rfl, hy⟩ := ha.exists_cons
    rw [Cursor.rest_advance_append hr'] at hra
    obtain ⟨rfl, -⟩ := List.cons.inj hra
    rw [hdelim.1] at hy
    simp at hy
  rw [hg.scan_printed l hr hhead, g.scan_eq_or, hs, Grammar.endsAfter, hends, ite_self,
    List.findSome?_nil, Option.none_or, Cursor.advance_advance, List.length_append]

end Tag

end ComponentTags
