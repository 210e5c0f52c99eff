import ComponentTags.Proofs.Replacing
import ComponentTags.Proofs.Written
import Mathlib.Data.List.Basic

/-!
# Printed attributes in full

A list of attributes is printed with spaces before each of them (`printed`). The steps of
`Shorthand.expand` run over the whole print, and each of them touches the attributes of its own
form only:

1. `expandVariables` gives `:$name` its value (`Spaced.fullVariable`);
2. `expandBag` makes the echo of the attribute bag an attribute (`Spaced.fullBag`);
3. `expandCalls` makes the calls of a directive attributes (`Spaced.fullCall`);
4. `expandBindings` begins the bound attributes, which now are all that have a colon, with
   `bind:` (`Spaced.fullText`).

No step can read across an attribute, because every attribute ends with a character that is no
blank and is followed by a space or by nothing (`Follows`).
-/

namespace ComponentTags

open Text Shorthand

/-- An attribute with the spaces before it. -/
structure Spaced where
  spaces : Text
  written : Written
  isRun_spaces : IsRun isSpace spaces
  proper : written.Proper
  unmarked : written.IsUnmarked

namespace Spaced

variable {i : Spaced} {c d : Cursor} {m s v r name : Text} {n : Nat} {x : Char}

theorem isRun_space : IsRun isSpace [' '] := by
  decide

def text (i : Spaced) : Text :=
  i.spaces ++ i.written.text

def printed (items : List Spaced) : Text :=
  items.flatMap text

/-! ## The text around an attribute -/

/-- What can follow an attribute: nothing, or a space. -/
def Follows (v : Text) : Prop :=
  ∀ x ∈ v.head?, isSpace x = true

theorem Follows.stops_isBareChar {v : Text} (hv : Follows v) : Stops Token.isBareChar v := by
  intro x hx
  simp [Token.isBareChar, hv x hx]

theorem exists_text_eq_cons (i : Spaced) : ∃ a t, i.text = a :: t ∧ isSpace a = true := by
  obtain ⟨a, t, h, ha⟩ := i.isRun_spaces.exists_cons
  exact ⟨a, t ++ i.written.text, by simp [text, h], ha⟩

theorem follows_printed (items : List Spaced) : Follows (printed items) := by
  intro x hx
  cases items with
  | nil => simp [printed] at hx
  | cons i items =>
    obtain ⟨a, t, h, ha⟩ := i.exists_text_eq_cons
    obtain rfl : a = x := by simpa [printed, h] using hx
    exact ha

/-- A text without spaces that begins within an attribute ends within it. -/
theorem Follows.prefix_of_prefix_append (hv : Follows v) (hm : ∀ x ∈ m, isSpace x = false)
    (h : m <+: s ++ v) : m <+: s := by
  cases v with
  | nil => simpa using h
  | cons a v =>
    refine prefix_of_prefix_append_cons (fun ha => ?_) h
    have := hm a ha
    simp [hv a (by simp)] at this

theorem Follows.stops {p : Char → Bool} (hv : Follows v)
    (hp : ∀ x, p x = true → isAttributeNameChar x = true) : Stops p v := by
  intro x hx
  by_cases h : p x = true
  · have := isBlank_of_isAttributeNameChar (hp x h)
    simp [isBlank_of_isSpace (hv x hx)] at this
  · simpa using h

theorem isBlank_getLast_of_suffix (h : s <:+ i.text) (hs : s ≠ []) :
    ∀ x ∈ s.getLast?, isBlank x = false := by
  obtain ⟨t, ht⟩ := h
  have h₁ : s.getLast? = i.text.getLast? := by
    rw [← ht, List.getLast?_append_of_ne_nil t hs]
  rw [h₁, text, List.getLast?_append_of_ne_nil _ (Written.text_ne_nil i.proper)]
  exact Written.isBlank_getLast_text i.proper

/-- A colon stands behind a space only where the attribute begins with it. -/
theorem text_eq_of_space_colon (hx : isSpace x = true) (h : x :: ':' :: r <:+ i.text) :
    i.written.text = ':' :: r := by
  have hbody : ∀ t, i.written.text ≠ t ++ x :: ':' :: r := by
    intro t ht
    exact Written.not_space_colon_infix i.proper i.unmarked hx ⟨t, r, by simp [ht]⟩
  obtain ⟨t, ht⟩ := h
  rcases List.append_eq_append_iff.1 ht with ⟨u, hu, ht'⟩ | ⟨u, -, hu⟩
  · -- The cut is inside the spaces, and the colon is no space.
    rcases u with _ | ⟨y, _ | ⟨z, u⟩⟩
    · exact absurd ht'.symm (hbody [])
    · exact (List.cons.inj ht').2.symm
    · have hz : ':' = z := (List.cons.inj (List.cons.inj ht').2).1
      have := i.isRun_spaces.2 z (by simp [hu])
      rw [← hz] at this
      exact absurd this (by decide)
  · exact absurd hu (hbody u)

/-- A mark is found in an attribute only if its form begins with it. -/
theorem ownMark?_of_prefix (hm : m ∈ Written.marks) (hv : Follows v) (hs : s <:+ i.text)
    (h : m <+: s ++ v) : i.written.ownMark? = some m := by
  obtain ⟨a, m', rfl, -, hx⟩ := Written.exists_cons_of_mem_marks hm
  have hp : a :: m' <:+: i.text :=
    (hv.prefix_of_prefix_append (fun y hy => (hx y hy).2.2) h).isInfix.trans hs.isInfix
  have ha : a ∉ i.spaces := by
    intro hmem
    have := (hx a (by simp)).2.2
    rw [i.isRun_spaces.2 a hmem] at this
    simp at this
  rw [text, infix_append_iff_of_not_mem ha] at hp
  exact Written.ownMark?_of_infix i.proper i.unmarked hm hp

/-- What is rewritten attribute by attribute is rewritten in print. -/
theorem expand_printed {α : Type} {hit : Cursor → Option (α × Nat)} {f : α → Text}
    {new : Spaced → Text}
    (h : ∀ (i : Spaced) (c : Cursor) (v : Text), Follows v → c.rest = i.text ++ v →
      Piece.expand f (c.pieces hit) =
        new i ++ Piece.expand f ((c.advance i.text.length).pieces hit))
    (items : List Spaced) :
    Piece.expand f ((Cursor.start (printed items)).pieces hit) = items.flatMap new :=
  Cursor.expand_pieces_flatMap (fun i _ c v => h i c v) (fun l _ => follows_printed l) rfl

/-! ## Variables -/

/-- The attribute with its value, if it is a bound variable. -/
def fullVariable : Spaced → Spaced
  | ⟨spaces, .boundVariable name, hs, hp, _⟩ =>
    { spaces := spaces.dropLast ++ [' ']
      written := .bound name ('$' :: name)
      isRun_spaces := by
        refine ⟨by simp, fun x hx => ?_⟩
        rcases List.mem_append.1 hx with hx | hx
        · exact hs.2 x ((List.dropLast_prefix spaces).subset hx)
        · obtain rfl : x = ' ' := by simpa using hx
          decide
      proper := by
        refine ⟨⟨hp.1, fun x hx => Written.isPlainNameChar_of_isWordChar (hp.2 x hx)⟩, ?_⟩
        simp [Written.not_mem_of_isRun (x := '"') hp (by decide)]
      unmarked := by
        refine Written.unmarked_of_forall fun x hx => ?_
        rcases List.mem_cons.1 hx with rfl | hx
        · decide
        · have hw := hp.2 x hx
          refine ⟨?_, ?_, ?_⟩
          · rintro rfl
            exact absurd hw (by decide)
          · rintro rfl
            exact absurd hw (by decide)
          · exact Written.isSpace_of_isPlainNameChar (Written.isPlainNameChar_of_isWordChar hw) }
  | i => i

theorem misses_boundVariable? (hr : c.rest = i.text ++ v) (hv : Follows v)
    (hw : ∀ name, i.written ≠ .boundVariable name) : c.Misses boundVariable? i.text := by
  refine Cursor.misses_of_suffix hr fun s d hs hne hd _ => ?_
  by_contra h
  obtain ⟨⟨name, n⟩, h⟩ := Option.ne_none_iff_exists'.1 h
  obtain ⟨a, rest, hrest, ha, -⟩ := boundVariable?_eq_some_iff.1 h
  rw [hd] at hrest
  obtain ⟨b, s, rfl⟩ := List.exists_cons_of_ne_nil hne
  obtain ⟨rfl, htail⟩ := List.cons.inj hrest
  have hp : [':', '$'] <+: s :=
    hv.prefix_of_prefix_append (forall_mem_of_all (by decide)) ⟨name ++ rest, htail.symm⟩
  obtain ⟨r, rfl⟩ := hp
  have ht := text_eq_of_space_colon ha hs
  rcases Written.eq_of_text_eq_colon i.proper ht with ⟨name', value, hi, hn⟩ | ⟨name', hi, -⟩
  · have hrun := hi ▸ i.proper
    obtain ⟨b, name', rfl, hb⟩ := hrun.1.exists_cons
    obtain ⟨rfl, -⟩ := List.cons.inj hn
    exact absurd hb (by decide)
  · exact hw name' hi

theorem expand_boundVariable (hv : Follows v) (hr : c.rest = i.text ++ v) :
    Piece.expand variableAttribute (c.pieces boundVariable?) =
      i.fullVariable.text ++
        Piece.expand variableAttribute ((c.advance i.text.length).pieces boundVariable?) := by
  obtain ⟨spaces, w, hs, hp, hu⟩ := i
  cases w with
  | boundVariable name =>
    obtain ⟨b, a, rfl⟩ : ∃ b a, spaces = b ++ [a] := by
      rcases List.eq_nil_or_concat spaces with rfl | ⟨b, a, rfl⟩
      · exact absurd rfl hs.1
      · exact ⟨b, a, by simp⟩
    -- Only the last space belongs to what is found.
    have hr₁ : c.rest = b ++ (a :: ':' :: '$' :: name ++ v) := by
      rw [hr]
      simp [text, Written.text]
    have hmiss : c.Misses boundVariable? b := by
      refine Cursor.misses_of_suffix hr₁ fun s d hsuf hne hd _ => ?_
      by_contra h
      obtain ⟨⟨name', n⟩, h⟩ := Option.ne_none_iff_exists'.1 h
      obtain ⟨a', rest, hrest, -⟩ := boundVariable?_eq_some_iff.1 h
      obtain ⟨x, s, rfl⟩ := List.exists_cons_of_ne_nil hne
      rw [hd] at hrest
      have htail := (List.cons.inj hrest).2
      -- What stands behind a space is a space again.
      have hspace : isSpace ':' = true := by
        rcases s with _ | ⟨y, s⟩
        · obtain rfl : a = ':' := (List.cons.inj htail).1
          exact hs.2 _ (by simp)
        · obtain rfl : y = ':' := (List.cons.inj htail).1
          exact hs.2 _ (by simp [hsuf.subset (show ':' ∈ x :: ':' :: s by simp)])
      exact absurd hspace (by decide)
    have hr₂ := Cursor.rest_advance_append hr₁
    have hhit : boundVariable? (c.advance b.length) =
        some (name, (a :: ':' :: '$' :: name).length) := by
      refine boundVariable?_eq_some_iff.2 ⟨a, v, hr₂, hs.2 a (by simp), hp, ?_, by simp⟩
      exact hv.stops fun x h => isAttributeNameChar_of_isTagNameChar (isTagNameChar_of_isWordChar h)
    rw [Cursor.expand_pieces_of_misses _ hr₁ hmiss,
      Cursor.expand_pieces_of_hit _ hr₂ (by simp) hhit, Cursor.advance_advance,
      ← List.length_append]
    simp [fullVariable, text, Written.text, Written.quotedValue, variableAttribute]
  | _ =>
    refine Cursor.expand_pieces_of_misses _ hr (misses_boundVariable? hr hv ?_)
    intro name h
    cases h

/-! ## The attribute bag -/

/-- The attribute `attributes`, if it is an echo of the attribute bag. -/
def fullBag : Spaced → Spaced
  | ⟨_, .bag inner, _, hp, hu⟩ =>
    { spaces := [' ']
      written := .bound "attributes".toList (bagName ++ inner)
      isRun_spaces := isRun_space
      proper := by
        refine ⟨by decide, ?_⟩
        rw [List.mem_append, not_or]
        exact ⟨by decide, hp.2.2.1⟩
      unmarked := Written.Unmarked.append (forall_mem_of_all (by decide)) hu }
  | i => i

theorem bagAttribute_eq (inner : Text) :
    bagAttribute inner = ' ' :: (Written.bound "attributes".toList (bagName ++ inner)).text := by
  have h : " :attributes=\"".toList = [' ', ':'] ++ "attributes".toList ++ ['=', '"'] := by simp
  have hbound : ∀ name value : Text,
      [' ', ':'] ++ name ++ ['=', '"'] ++ bagName ++ value ++ ['"'] =
        ' ' :: (Written.bound name (bagName ++ value)).text := by
    intro name value
    simp [Written.text, Written.quotedValue]
  have h' := hbound "attributes".toList inner
  rw [← h] at h'
  exact h'

theorem misses_bagEcho? (hr : c.rest = i.text ++ v) (hv : Follows v)
    (hw : ∀ inner, i.written ≠ .bag inner) : c.Misses bagEcho? i.text := by
  refine Cursor.misses_of_suffix hr fun s d hs hne hd _ => ?_
  by_contra h
  obtain ⟨⟨name, n⟩, h⟩ := Option.ne_none_iff_exists'.1 h
  obtain ⟨blanks, rest, inner, k, hrest, hb, -, hbag, -⟩ := bagEcho?_eq_some_iff.1 h
  obtain ⟨gap, tail, rfl, -⟩ := bag?_eq_some_iff.1 hbag
  obtain ⟨s', -, rfl, hs'⟩ :=
    exists_eq_append_of_run (hd ▸ hrest) hb hne (isBlank_getLast_of_suffix hs hne)
  have hmark : ['{', '{'] <+: s' ++ v := ⟨_, hs'⟩
  have hown := ownMark?_of_prefix (by simp [Written.marks]) hv
    ((List.suffix_append blanks s').trans hs) hmark
  cases hi : i.written with
  | bag inner => exact hw inner hi
  | call directive arguments =>
    rw [hi] at hown
    simp [Written.ownMark?, callOpening] at hown
  | _ =>
    rw [hi] at hown
    simp [Written.ownMark?] at hown

theorem expand_bagEcho (hv : Follows v) (hr : c.rest = i.text ++ v) :
    Piece.expand bagAttribute (c.pieces bagEcho?) =
      i.fullBag.text ++ Piece.expand bagAttribute ((c.advance i.text.length).pieces bagEcho?) := by
  obtain ⟨spaces, w, hs, hp, hu⟩ := i
  cases w with
  | bag inner =>
    have hbag : bag? (Written.text (.bag inner) ++ v) =
        some (inner ++ [' '], (Written.text (.bag inner)).length) := by
      refine bag?_eq_some_iff.2 ⟨[' '], v, ?_, ?_, ?_, ?_⟩
      · simp [Written.text]
      · exact forall_mem_of_all (by decide)
      · simp [hp.2.1]
      · simp only [Written.text, List.length_cons, List.length_append, List.length_nil]
    have hhit : bagEcho? c = some (inner, (spaces ++ Written.text (.bag inner)).length) := by
      refine bagEcho?_eq_some_iff.2 ⟨spaces, _, _, _, ?_, ?_, Or.inl hs.1, hbag, ?_, ?_⟩
      · rw [hr, text, List.append_assoc]
      · exact fun x hx => isBlank_of_isSpace (hs.2 x hx)
      · exact (trimEnd_append (forall_mem_of_all (by decide)) hp.2.2.2).symm
      · simp
    rw [Cursor.expand_pieces_of_hit _ hr (by simp [text, hs.1]) hhit, bagAttribute_eq]
    rfl
  | _ =>
    refine Cursor.expand_pieces_of_misses _ hr (misses_bagEcho? hr hv ?_)
    intro inner h
    cases h

/-! ## Calls -/

/-- The attribute that a call stands for, if it is one of the directive. -/
def fullCall (directive : StyleCall) : Spaced → Spaced
  | i@⟨spaces, .call directive' arguments, hs, _, hu⟩ =>
    if directive' = directive then
      { spaces := spaces
        written := .bound directive.name (directive.helper ++ replaceChar '"' ['\x27'] arguments)
        isRun_spaces := hs
        proper := by
          refine ⟨⟨directive.isRun_name.1, fun x hx => ?_⟩, ?_⟩
          · exact Written.isPlainNameChar_of_isWordChar (directive.isRun_name.2 x hx)
          · rw [List.mem_append, not_or]
            exact ⟨by cases directive <;> decide, not_mem_replaceChar (by decide)⟩
        unmarked :=
          Written.Unmarked.append (by cases directive <;> exact forall_mem_of_all (by decide))
            hu.replaceQuotes }
    else i
  | i => i

theorem misses_call? (directive : StyleCall) (hr : c.rest = i.text ++ v) (hv : Follows v)
    (hw : ∀ arguments, i.written ≠ .call directive arguments) :
    c.Misses (call? directive.name) i.text := by
  refine Cursor.misses_of_suffix hr fun s d hs hne hd _ => ?_
  by_contra h
  obtain ⟨⟨arguments, n⟩, h⟩ := Option.ne_none_iff_exists'.1 h
  obtain ⟨rest, hrest, hg, -⟩ := call?_eq_some_iff.1 h
  obtain ⟨inner, rfl⟩ := hg.exists_eq
  have hmark : callOpening directive.name <+: s ++ v :=
    ⟨inner ++ ')' :: rest, by simp [← hd, hrest, callOpening]⟩
  have hown := ownMark?_of_prefix (by cases directive <;> decide) hv hs hmark
  cases hi : i.written with
  | call directive' arguments =>
    rw [hi] at hown
    have hopen : callOpening directive'.name = callOpening directive.name := Option.some.inj hown
    obtain rfl := StyleCall.eq_of_callOpening_eq hopen
    exact hw arguments hi
  | bag inner =>
    rw [hi] at hown
    simp [Written.ownMark?, callOpening] at hown
  | _ =>
    rw [hi] at hown
    simp [Written.ownMark?] at hown

theorem expand_call (directive : StyleCall) (hv : Follows v) (hr : c.rest = i.text ++ v) :
    Piece.expand (callAttribute directive.name directive.helper)
        (c.pieces (call? directive.name)) =
      (i.fullCall directive).text ++
        Piece.expand (callAttribute directive.name directive.helper)
          ((c.advance i.text.length).pieces (call? directive.name)) := by
  obtain ⟨spaces, w, hs, hp, hu⟩ := i
  cases w with
  | call directive' arguments =>
    by_cases hd : directive' = directive
    · subst hd
      have hr₁ : c.rest = spaces ++ ('@' :: directive'.name ++ arguments ++ v) := by
        rw [hr]
        simp [text, Written.text]
      have hmiss : c.Misses (call? directive'.name) spaces := by
        refine Cursor.misses_of_suffix hr₁ fun s d hsuf hne hd _ => ?_
        by_contra h
        obtain ⟨⟨arguments', n⟩, h⟩ := Option.ne_none_iff_exists'.1 h
        obtain ⟨rest, hrest, -⟩ := call?_eq_some_iff.1 h
        obtain ⟨x, s, rfl⟩ := List.exists_cons_of_ne_nil hne
        rw [hd] at hrest
        obtain rfl : x = '@' := (List.cons.inj hrest).1
        exact absurd (hs.2 '@' (hsuf.subset (by simp))) (by decide)
      have hr₂ := Cursor.rest_advance_append hr₁
      have hhit : call? directive'.name (c.advance spaces.length) =
          some (arguments, ('@' :: directive'.name ++ arguments).length) :=
        call?_eq_some_iff.2 ⟨v, hr₂, hp, by simp; omega⟩
      rw [Cursor.expand_pieces_of_misses _ hr₁ hmiss,
        Cursor.expand_pieces_of_hit _ hr₂ (by simp) hhit, Cursor.advance_advance,
        ← List.length_append]
      simp [fullCall, text, Written.text, Written.quotedValue, callAttribute]
    · rw [fullCall, if_neg hd]
      refine Cursor.expand_pieces_of_misses _ hr (misses_call? directive hr hv ?_)
      intro arguments' h
      cases h
      exact hd rfl
  | _ =>
    refine Cursor.expand_pieces_of_misses _ hr (misses_call? directive hr hv ?_)
    intro arguments h
    cases h

/-! ## Bindings -/

/-- The attribute after the last step. -/
def fullText (i : Spaced) : Text :=
  match i.written with
  | .bound name value => ' ' :: (bindMark ++ name ++ Written.quotedValue value)
  | _ => i.text

theorem eq_bound_of_binding? (hs : s <:+ i.text) (hne : s ≠ []) (hd : d.rest = s ++ v)
    (hpos : d.pos = 0 → s = i.text) (h : binding? d = some (name, n)) :
    (∃ name' value, i.written = .bound name' value) ∧ i.written.text.length ≤ s.length := by
  obtain ⟨spaces, rest, hrest, hsp, hp, hn, -⟩ := binding?_eq_some_iff.1 h
  have hlast : ∀ x ∈ s.getLast?, isSpace x = false := by
    intro x hx
    exact isSpace_of_not_isBlank (isBlank_getLast_of_suffix hs hne x hx)
  obtain ⟨s', hne', rfl, hs'⟩ := exists_eq_append_of_run (hd ▸ hrest) hsp hne hlast
  obtain ⟨y, s', rfl⟩ := List.exists_cons_of_ne_nil hne'
  obtain ⟨rfl, htail⟩ := List.cons.inj hs'
  rcases List.eq_nil_or_concat spaces with rfl | ⟨b, a, rfl⟩
  · -- The text begins with a space, so nothing is found at its front without one.
    obtain ⟨a, t, ht, ha⟩ := i.exists_text_eq_cons
    have h₀ := hpos (hp.resolve_left (by simp))
    rw [ht] at h₀
    obtain rfl : ':' = a := (List.cons.inj h₀).1
    exact absurd ha (by decide)
  · have hsuf : a :: ':' :: s' <:+ i.text := by
      refine List.IsSuffix.trans ⟨b, ?_⟩ hs
      simp
    have ht := text_eq_of_space_colon (hsp a (by simp)) hsuf
    rcases Written.eq_of_text_eq_colon i.proper ht with ⟨name', value, hi, -⟩ | ⟨name', hi, rfl⟩
    · exact ⟨⟨name', value, hi⟩, by simp [ht]; omega⟩
    · obtain ⟨x, name, rfl, hx⟩ := hn.exists_cons
      obtain rfl : x = '$' := (List.cons.inj htail).1
      exact absurd hx (by decide)

theorem expand_binding (hr : c.rest = i.text ++ v) :
    Piece.expand bindingStart (c.pieces binding?) =
      i.fullText ++ Piece.expand bindingStart ((c.advance i.text.length).pieces binding?) := by
  by_cases hi : ∃ name value, i.written = .bound name value
  · obtain ⟨name, value, hi⟩ := hi
    obtain ⟨hname, -⟩ := hi ▸ i.proper
    obtain ⟨start, tail, hstart, htail⟩ : ∃ start tail,
        start = i.spaces ++ ':' :: (name ++ ['=']) ∧ tail = '"' :: (value ++ ['"']) :=
      ⟨_, _, rfl, rfl⟩
    have ht : i.text = start ++ tail := by
      simp [text, hi, Written.text, Written.quotedValue, hstart, htail]
    have hr₁ : c.rest = start ++ (tail ++ v) := by rw [hr, ht, List.append_assoc]
    have hhit := Written.binding?_of_isRun i.isRun_spaces hname hstart hr₁
    have hr₂ := Cursor.rest_advance_append hr₁
    -- The value is too short to hold a bound attribute of its own.
    have hmiss : (c.advance start.length).Misses binding? tail := by
      refine Cursor.misses_of_suffix hr₂ fun s d hs hne hd hpos => ?_
      by_contra h
      obtain ⟨⟨name', n⟩, h⟩ := Option.ne_none_iff_exists'.1 h
      have hle := hs.length_le
      have hlen : 0 < start.length := by
        rw [hstart, List.length_append]
        simp only [List.length_cons]
        omega
      rw [Cursor.pos_advance_append hr₁] at hpos
      have hbig := (eq_bound_of_binding? (hs.trans ⟨start, ht.symm⟩) hne hd (by omega) h).2
      simp [hi, Written.text, Written.quotedValue, htail] at hbig hle
      omega
    rw [Cursor.expand_pieces_of_hit _ hr₁ (by simp [hstart]) hhit,
      Cursor.expand_pieces_of_misses _ hr₂ hmiss, Cursor.advance_advance, ← List.length_append,
      ← ht]
    simp [fullText, hi, bindingStart, Written.quotedValue, htail]
  · have hmiss : c.Misses binding? i.text := by
      refine Cursor.misses_of_suffix hr fun s d hs hne hd hpos => ?_
      by_contra h
      obtain ⟨⟨name, n⟩, h⟩ := Option.ne_none_iff_exists'.1 h
      refine hi (eq_bound_of_binding? hs hne hd (fun h₀ => ?_) h).1
      exact hs.eq_of_length (by have := hs.length_le; omega)
    have hfull : i.fullText = i.text := by
      unfold fullText
      split
      · next name value h => exact absurd ⟨name, value, h⟩ hi
      · rfl
    rw [hfull]
    exact Cursor.expand_pieces_of_misses _ hr hmiss

/-! ## All steps -/

/-- The attribute before the last step. -/
def full (i : Spaced) : Spaced :=
  (((i.fullVariable).fullBag).fullCall .classes).fullCall .styles

theorem expand_printed_eq (items : List Spaced) :
    Shorthand.expand (printed items) = items.flatMap fun i => i.full.fullText := by
  have hprint : ∀ (f : Spaced → Spaced) (l : List Spaced),
      (l.flatMap fun i => (f i).text) = printed (l.map f) := by
    intro f l
    rw [printed, List.flatMap_map]
  have h₁ : expandVariables (printed items) = printed (items.map fullVariable) := by
    rw [expandVariables, expand_printed (fun i c v => expand_boundVariable), hprint]
  have h₂ : ∀ l, expandBag (printed l) = printed (l.map fullBag) := by
    intro l
    rw [expandBag, expand_printed (fun i c v => expand_bagEcho), hprint]
  have h₃ : ∀ (directive : StyleCall) (l : List Spaced),
      expandCalls directive.name directive.helper (printed l) =
        printed (l.map (fullCall directive)) := by
    intro directive l
    rw [expandCalls, expand_printed (fun i c v => expand_call directive), hprint]
  have h₄ : ∀ l, expandBindings (printed l) = l.flatMap fullText := by
    intro l
    rw [expandBindings, expand_printed (fun i c v _ => expand_binding)]
  calc Shorthand.expand (printed items)
    _ = expandBindings (expandStyles (expandClasses
          (printed ((items.map fullVariable).map fullBag)))) := by
      rw [Shorthand.expand, h₁, h₂]
    _ = expandBindings (printed ((((items.map fullVariable).map fullBag).map
          (fullCall .classes)).map (fullCall .styles))) := by
      rw [← h₃ .styles, ← h₃ .classes]
      rfl
    _ = items.flatMap fun i => i.full.fullText := by
      rw [h₄, List.map_map, List.map_map, List.map_map, List.flatMap_map]
      rfl

/-- Written in full, an attribute has the same name and the same meaning. -/
theorem full_written (i : Spaced) :
    i.full.written.name = i.written.name ∧ i.full.written.expression = i.written.expression ∧
      i.full.written.isLiteral = i.written.isLiteral := by
  obtain ⟨spaces, w, hs, hp, hu⟩ := i
  cases w with
  | call directive arguments => cases directive <;> exact ⟨rfl, rfl, rfl⟩
  | _ => exact ⟨rfl, rfl, rfl⟩

theorem full_written_cases (i : Spaced) :
    (∃ name value, i.full.written = .literal name value) ∨
      (∃ name value, i.full.written = .bound name value) ∨
      ∃ name, i.full.written = .flag name := by
  obtain ⟨spaces, w, hs, hp, hu⟩ := i
  cases w with
  | literal name value => exact Or.inl ⟨name, value, rfl⟩
  | flag name => exact Or.inr (Or.inr ⟨name, rfl⟩)
  | call directive arguments => cases directive <;> exact Or.inr (Or.inl ⟨_, _, rfl⟩)
  | _ => exact Or.inr (Or.inl ⟨_, _, rfl⟩)

end Spaced

end ComponentTags
