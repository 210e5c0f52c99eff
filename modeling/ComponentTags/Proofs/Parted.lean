import ComponentTags.Proofs.RoundTrip
import ComponentTags.Proofs.Settling

/-!
# Attributes parted by blanks

Attributes stand apart by blanks of any script, but a short form is found behind a space only. So
the blanks before an attribute decide whether it is written in full.

1. `Parted` is an attribute with the blanks before it, and `Parted.printed` a list of them.
2. `Parted.expand_boundVariable` and `Parted.expand_binding` say what a step makes of one attribute.
3. `Parted.expand_printed_eq` writes a list in full attribute by attribute, and
   `Parted.exists_inFull_eq` says what becomes of each.
-/

namespace ComponentTags

open Text Shorthand

/-! ## Plain attributes -/

namespace Written

/-- A character of a value that holds no blanks, quotes, echos and calls. -/
def isPlainValueChar (x : Char) : Bool :=
  !isBlank x && x != '"' && x != '{' && x != '@'

/-- A value in double quotes, literal or bound, or a bound variable. -/
def IsPlain : Written → Prop
  | literal name value => IsRun isPlainNameChar name ∧ ∀ x ∈ value, isPlainValueChar x = true
  | bound name value => IsRun isPlainNameChar name ∧ ∀ x ∈ value, isPlainValueChar x = true
  | boundVariable name => IsRun isWordChar name
  | _ => False

instance (w : Written) : Decidable w.IsPlain :=
  match w with
  | literal _ value => have := List.decidableBAll (fun x => isPlainValueChar x = true) value
    inferInstanceAs (Decidable (_ ∧ _))
  | bound _ value => have := List.decidableBAll (fun x => isPlainValueChar x = true) value
    inferInstanceAs (Decidable (_ ∧ _))
  | boundVariable name => inferInstanceAs (Decidable (IsRun isWordChar name))
  | flag _ => isFalse id
  | call _ _ => isFalse id
  | bag _ => isFalse id

/-- The attribute with its mark in full. -/
def inFull : Written → Text
  | bound name value => bindMark ++ name ++ quotedValue value
  | boundVariable name => bindMark ++ name ++ quotedValue ('$' :: name)
  | w => w.text

variable {w : Written} {x : Char}

theorem isPlainValueChar_iff :
    isPlainValueChar x = true ↔ isBlank x = false ∧ x ≠ '"' ∧ x ≠ '{' ∧ x ≠ '@' := by
  simp [isPlainValueChar, and_assoc]

theorem IsPlain.proper (hw : w.IsPlain) : w.Proper := by
  have hvalue : ∀ {value : Text}, (∀ x ∈ value, isPlainValueChar x = true) → '"' ∉ value :=
    fun h hq => (isPlainValueChar_iff.1 (h _ hq)).2.1 rfl
  cases w with
  | literal name value => exact ⟨hw.1, hvalue hw.2⟩
  | bound name value => exact ⟨hw.1, hvalue hw.2⟩
  | boundVariable name => exact hw
  | _ => exact hw.elim

theorem isPlain_of_isPlainNameChar (h : isPlainNameChar x = true) :
    isBlank x = false ∧ x ≠ '{' ∧ x ≠ '@' := by
  refine ⟨isBlank_of_isPlainNameChar h, ?_, ?_⟩
  · rintro rfl
    exact absurd h (by decide)
  · rintro rfl
    exact absurd h (by decide)

/-- A plain attribute has no blank in it, and begins no echo and no call. -/
theorem IsPlain.of_mem_text (hw : w.IsPlain) :
    ∀ x ∈ w.text, isBlank x = false ∧ x ≠ '{' ∧ x ≠ '@' := by
  have hquoted : ∀ {value : Text}, (∀ x ∈ value, isPlainValueChar x = true) →
      ∀ x ∈ quotedValue value, isBlank x = false ∧ x ≠ '{' ∧ x ≠ '@' := by
    intro value hvalue x hx
    simp only [quotedValue, List.mem_cons, List.mem_append, List.not_mem_nil, or_false] at hx
    rcases hx with rfl | rfl | hx | rfl
    · decide
    · decide
    · exact ⟨(isPlainValueChar_iff.1 (hvalue x hx)).1, (isPlainValueChar_iff.1 (hvalue x hx)).2.2⟩
    · decide
  intro x hx
  cases w with
  | literal name value =>
    rcases List.mem_append.1 hx with hx | hx
    · exact isPlain_of_isPlainNameChar (hw.1.2 x hx)
    · exact hquoted hw.2 x hx
  | bound name value =>
    rcases List.mem_cons.1 hx with rfl | hx
    · decide
    rcases List.mem_append.1 hx with hx | hx
    · exact isPlain_of_isPlainNameChar (hw.1.2 x hx)
    · exact hquoted hw.2 x hx
  | boundVariable name =>
    rcases List.mem_cons.1 hx with rfl | hx
    · decide
    rcases List.mem_cons.1 hx with rfl | hx
    · decide
    · exact isPlain_of_isPlainNameChar (isPlainNameChar_of_isWordChar (hw.2 x hx))
  | _ => exact hw.elim

theorem isPlain_bound_variable {name : Text} (hname : IsRun isWordChar name) :
    (bound name ('$' :: name)).IsPlain := by
  have hplain : ∀ x ∈ name, isPlainNameChar x = true :=
    fun x hx => isPlainNameChar_of_isWordChar (hname.2 x hx)
  refine ⟨⟨hname.1, hplain⟩, fun x hx => ?_⟩
  rcases List.mem_cons.1 hx with rfl | hx
  · decide
  · have hq : x ≠ '"' := by
      rintro rfl
      exact absurd (hplain _ hx) (by decide)
    obtain ⟨hb, hbrace, hat⟩ := isPlain_of_isPlainNameChar (hplain x hx)
    exact isPlainValueChar_iff.2 ⟨hb, hq, hbrace, hat⟩

end Written

/-- A plain attribute with the blanks before it. -/
structure Parted where
  blanks : Text
  written : Written
  isRun_blanks : IsRun isBlank blanks
  isPlain : written.IsPlain

namespace Parted

def text (i : Parted) : Text :=
  i.blanks ++ i.written.text

def printed (l : List Parted) : Text :=
  l.flatMap text

/-- The last blank before the attribute is a space. -/
def SpaceBefore (i : Parted) : Prop :=
  ∀ x ∈ i.blanks.getLast?, isSpace x = true

instance (i : Parted) : Decidable i.SpaceBefore :=
  Option.decidableForallMem (p := fun x => isSpace x = true) i.blanks.getLast?

/-- The first blank before the attribute is a space. -/
def SpaceFirst (i : Parted) : Prop :=
  ∀ x ∈ i.blanks.head?, isSpace x = true

instance (i : Parted) : Decidable i.SpaceFirst :=
  Option.decidableForallMem (p := fun x => isSpace x = true) i.blanks.head?

variable {i : Parted} {c d : Cursor} {s v name : Text} {x : Char} {l : List Parted}

/-! ## The text around an attribute -/

/-- What can follow an attribute: nothing, or a blank. -/
def Follows (v : Text) : Prop :=
  ∀ x ∈ v.head?, isBlank x = true

theorem exists_text_eq_cons (i : Parted) : ∃ a t, i.text = a :: t ∧ isBlank a = true := by
  obtain ⟨a, t, h, ha⟩ := i.isRun_blanks.exists_cons
  exact ⟨a, t ++ i.written.text, by simp [text, h], ha⟩

theorem follows_printed (l : List Parted) : Follows (printed l) := by
  intro x hx
  cases l with
  | nil => simp [printed] at hx
  | cons i l =>
    obtain ⟨a, t, h, ha⟩ := i.exists_text_eq_cons
    obtain rfl : a = x := by simpa [printed, h] using hx
    exact ha

theorem Follows.stops {p : Char → Bool} (hv : Follows v)
    (hp : ∀ x, p x = true → isBlank x = false) : Stops p v := by
  intro x hx
  by_contra h
  have hblank := hp x (by simpa using h)
  simp [hv x hx] at hblank

theorem not_isSpace_of_mem_text (hx : x ∈ i.written.text) : isSpace x = false :=
  isSpace_of_not_isBlank (i.isPlain.of_mem_text x hx).1

theorem isSpace_getLast_of_suffix (h : s <:+ i.text) (hs : s ≠ []) :
    ∀ x ∈ s.getLast?, isSpace x = false := by
  obtain ⟨t, ht⟩ := h
  intro x hx
  rw [← List.getLast?_append_of_ne_nil t hs, ht, text,
    List.getLast?_append_of_ne_nil _ (Written.text_ne_nil i.isPlain.proper)] at hx
  exact not_isSpace_of_mem_text (List.mem_of_getLast? hx)

/-- A space with a colon behind it is the last blank before the attribute. -/
theorem eq_text_of_space_colon (hs : x :: s <:+ i.text) (hx : isSpace x = true)
    (hcolon : (s ++ v).head? = some ':') :
    s = i.written.text ∧ i.SpaceBefore := by
  have hno : x ∉ i.written.text := fun h => absurd hx (by simp [not_isSpace_of_mem_text h])
  obtain ⟨t, ht⟩ := hs
  rcases List.append_eq_append_iff.1 ht with ⟨u, hu, ht'⟩ | ⟨u, -, hu⟩
  · rcases u with _ | ⟨y, _ | ⟨z, u⟩⟩
    · exact absurd (ht' ▸ List.mem_cons_self : x ∈ [] ++ i.written.text) hno
    · obtain ⟨rfl, rfl⟩ := List.cons.inj ht'
      refine ⟨rfl, fun y hy => ?_⟩
      obtain rfl : x = y := by simpa [hu] using hy
      exact hx
    · -- Two blanks with the colon behind the first one.
      obtain ⟨-, rfl⟩ := List.cons.inj ht'
      obtain rfl : z = ':' := by simpa using hcolon
      exact absurd (i.isRun_blanks.2 ':' (by simp [hu])) (by decide)
  · exact absurd (by simp [hu]) hno

/-! ## Variables -/

theorem isRun_dropLast_space {blanks : Text} (h : IsRun isBlank blanks) :
    IsRun isBlank (blanks.dropLast ++ [' ']) := by
  refine ⟨by simp, fun x hx => ?_⟩
  rcases List.mem_append.1 hx with hx | hx
  · exact h.2 x ((List.dropLast_prefix blanks).subset hx)
  · obtain rfl : x = ' ' := by simpa using hx
    decide

/-- The attribute with its value, if it is a bound variable behind a space. -/
def fullVariable : Parted → Parted
  | ⟨blanks, .boundVariable name, hb, hp⟩ =>
    if SpaceBefore ⟨blanks, .boundVariable name, hb, hp⟩ then
      ⟨blanks.dropLast ++ [' '], .bound name ('$' :: name), isRun_dropLast_space hb,
        Written.isPlain_bound_variable hp⟩
    else ⟨blanks, .boundVariable name, hb, hp⟩
  | i => i

/-- A variable is found only where it is the attribute and stands behind a space. -/
theorem eq_boundVariable_of_ne_none (hs : s <:+ i.text) (hne : s ≠ []) (hd : d.rest = s ++ v)
    (h : boundVariable? d ≠ none) :
    (∃ name, i.written = .boundVariable name) ∧ i.SpaceBefore ∧
      s.length = i.written.text.length + 1 := by
  obtain ⟨⟨name, n⟩, h⟩ := Option.ne_none_iff_exists'.1 h
  obtain ⟨a, rest, hrest, ha, -⟩ := boundVariable?_eq_some_iff.1 h
  obtain ⟨x, s, rfl⟩ := List.exists_cons_of_ne_nil hne
  rw [hd, List.cons_append] at hrest
  obtain ⟨rfl, htail⟩ := List.cons.inj hrest
  obtain ⟨rfl, hspace⟩ := eq_text_of_space_colon hs ha (v := v) (by simp [htail])
  refine ⟨?_, hspace, rfl⟩
  obtain ⟨y, r, hy⟩ := List.exists_cons_of_ne_nil (Written.text_ne_nil i.isPlain.proper)
  rw [hy, List.cons_append] at htail
  obtain ⟨rfl, hdollar⟩ := List.cons.inj htail
  rcases Written.eq_of_text_eq_colon i.isPlain.proper hy with
    ⟨name', value, hi, hr⟩ | ⟨name', hi, -⟩
  · have hrun := (hi ▸ i.isPlain.proper : (Written.bound name' value).Proper).1
    obtain ⟨b, name', rfl, hb⟩ := hrun.exists_cons
    rw [hr, List.append_assoc] at hdollar
    obtain ⟨rfl, -⟩ := List.cons.inj hdollar
    exact absurd hb (by decide)
  · exact ⟨name', hi⟩

theorem expand_boundVariable_of_space {hb : IsRun isBlank (s ++ [x])}
    {hp : (Written.boundVariable name).IsPlain} (hx : isSpace x = true) (hv : Follows v)
    (hr : c.rest = text ⟨s ++ [x], .boundVariable name, hb, hp⟩ ++ v) :
    Piece.expand variableAttribute (c.pieces boundVariable?) =
      s ++ variableAttribute name ++ Piece.expand variableAttribute
        ((c.advance (text ⟨s ++ [x], .boundVariable name, hb, hp⟩).length).pieces
          boundVariable?) := by
  have ht : text ⟨s ++ [x], .boundVariable name, hb, hp⟩ = s ++ x :: ':' :: '$' :: name := by
    simp [text, Written.text]
  have hr₁ : c.rest = s ++ (x :: ':' :: '$' :: name ++ v) := by
    rw [hr, ht, List.append_assoc]
  -- Only the last blank belongs to what is found.
  have hmiss : c.Misses boundVariable? s := by
    refine Cursor.misses_of_suffix hr₁ fun u d hu hne hd _ => ?_
    by_contra h
    obtain ⟨t, rfl⟩ := hu
    have hsuffix : u ++ x :: ':' :: '$' :: name <:+
        text ⟨t ++ u ++ [x], .boundVariable name, hb, hp⟩ := ⟨t, by simp [text, Written.text]⟩
    have hlength := (eq_boundVariable_of_ne_none (v := v) hsuffix (by simp) (by simp [hd]) h).2.2
    exact absurd hlength (by simpa [Written.text] using hne)
  have hr₂ := Cursor.rest_advance_append hr₁
  have hhit : boundVariable? (c.advance s.length) =
      some (name, (x :: ':' :: '$' :: name).length) :=
    boundVariable?_eq_some_iff.2 ⟨x, v, hr₂, hx, hp,
      hv.stops fun y hy => Written.isBlank_of_isWordChar hy, by simp⟩
  rw [Cursor.expand_pieces_of_misses _ hr₁ hmiss,
    Cursor.expand_pieces_of_hit _ hr₂ (by simp) hhit, Cursor.advance_advance, ht,
    List.length_append, List.append_assoc]

theorem expand_boundVariable (hv : Follows v) (hr : c.rest = i.text ++ v) :
    Piece.expand variableAttribute (c.pieces boundVariable?) =
      i.fullVariable.text ++
        Piece.expand variableAttribute ((c.advance i.text.length).pieces boundVariable?) := by
  by_cases hi : (∃ name, i.written = .boundVariable name) ∧ i.SpaceBefore
  · obtain ⟨⟨name, hname⟩, hspace⟩ := hi
    obtain ⟨blanks, w, hb, hp⟩ := i
    obtain rfl : w = .boundVariable name := hname
    obtain ⟨b, a, rfl⟩ := (List.eq_nil_or_concat' blanks).resolve_left hb.1
    rw [expand_boundVariable_of_space (hspace a (by simp)) hv hr, fullVariable, if_pos hspace]
    simp [text, Written.text, Written.quotedValue, variableAttribute]
  · have hfull : i.fullVariable = i := by
      obtain ⟨blanks, w, hb, hp⟩ := i
      cases w with
      | boundVariable name => exact if_neg fun h => hi ⟨⟨name, rfl⟩, h⟩
      | _ => rfl
    have hmiss : c.Misses boundVariable? i.text := by
      refine Cursor.misses_of_suffix hr fun s d hs hne hd _ => ?_
      by_contra h
      obtain ⟨hname, hspace, -⟩ := eq_boundVariable_of_ne_none hs hne hd h
      exact hi ⟨hname, hspace⟩
    rw [hfull]
    exact Cursor.expand_pieces_of_misses _ hr hmiss

/-! ## Bindings -/

/-- The attribute with its mark in full, if it is a binding behind a space. -/
def fullText (i : Parted) : Text :=
  match i.written with
  | .bound name value =>
    if i.SpaceBefore then
      trimEnd isSpace i.blanks ++ ' ' :: (bindMark ++ name ++ Written.quotedValue value)
    else i.text
  | _ => i.text

/-- A binding is found only where it is the attribute, with the spaces right before it. -/
theorem eq_bound_of_ne_none (hs : s <:+ i.text) (hne : s ≠ []) (hd : d.rest = s ++ v)
    (hpos : d.pos = 0 → s = i.text) (h : binding? d ≠ none) :
    (∃ name value, i.written = .bound name value) ∧ i.SpaceBefore := by
  obtain ⟨⟨name, n⟩, h⟩ := Option.ne_none_iff_exists'.1 h
  obtain ⟨spaces, rest, hrest, hsp, hp, hn, -⟩ := binding?_eq_some_iff.1 h
  obtain ⟨s, hne', rfl, hs'⟩ :=
    exists_eq_append_of_run (hd ▸ hrest) hsp hne (isSpace_getLast_of_suffix hs hne)
  have hcolon : (s ++ v).head? = some ':' := by simp [← hs']
  rcases List.eq_nil_or_concat spaces with rfl | ⟨b, a, rfl⟩
  · -- The text begins with a blank, so nothing is found at its front without a space.
    obtain ⟨a, t, ht, ha⟩ := i.exists_text_eq_cons
    rw [List.nil_append] at hpos
    rw [hpos (hp.resolve_left (by simp)), ht] at hcolon
    obtain rfl : a = ':' := by simpa using hcolon
    exact absurd ha (by decide)
  · have hsuffix : a :: s <:+ i.text := List.IsSuffix.trans ⟨b, by simp⟩ hs
    obtain ⟨rfl, hspace⟩ := eq_text_of_space_colon hsuffix (hsp a (by simp)) hcolon
    refine ⟨?_, hspace⟩
    obtain ⟨y, r, hy⟩ := List.exists_cons_of_ne_nil hne'
    rw [hy] at hs'
    obtain ⟨rfl, htail⟩ := List.cons.inj hs'
    rcases Written.eq_of_text_eq_colon i.isPlain.proper hy with
      ⟨name', value, hi, -⟩ | ⟨name', hi, rfl⟩
    · exact ⟨name', value, hi⟩
    · obtain ⟨z, name, rfl, hz⟩ := hn.exists_cons
      obtain rfl : z = '$' := (List.cons.inj htail).1
      exact absurd hz (by decide)

theorem misses_blanks {u : Text} (hr : c.rest = u ++ v) (hu : ∀ x ∈ u, isBlank x = true)
    (hlast : ∀ x ∈ u.getLast?, isSpace x = false) : c.Misses binding? u := by
  refine Cursor.misses_of_suffix hr fun s d hs hne hd _ => ?_
  by_contra h
  obtain ⟨⟨name, n⟩, h⟩ := Option.ne_none_iff_exists'.1 h
  obtain ⟨spaces, rest, hrest, hsp, -⟩ := binding?_eq_some_iff.1 h
  have hlast' : ∀ x ∈ s.getLast?, isSpace x = false := by
    obtain ⟨t, rfl⟩ := hs
    rwa [List.getLast?_append_of_ne_nil t hne] at hlast
  obtain ⟨s, hne', rfl, hs'⟩ := exists_eq_append_of_run (hd ▸ hrest) hsp hne hlast'
  obtain ⟨y, s, rfl⟩ := List.exists_cons_of_ne_nil hne'
  obtain ⟨rfl, -⟩ := List.cons.inj hs'
  exact absurd (hu ':' (hs.subset (by simp))) (by decide)

theorem misses_of_not_isSpace {u : Text} (hr : c.rest = u ++ v) (hu : ∀ x ∈ u, isSpace x = false)
    (hpos : 0 < c.pos) : c.Misses binding? u := by
  refine Cursor.misses_of_suffix hr fun s d hs hne hd hlength => ?_
  by_contra h
  obtain ⟨⟨name, n⟩, h⟩ := Option.ne_none_iff_exists'.1 h
  obtain ⟨spaces, rest, hrest, hsp, hp, -⟩ := binding?_eq_some_iff.1 h
  have hpos' : d.pos ≠ 0 := by
    have := hs.length_le
    omega
  obtain ⟨a, spaces, rfl⟩ := List.exists_cons_of_ne_nil (hp.resolve_right hpos')
  obtain ⟨b, s, rfl⟩ := List.exists_cons_of_ne_nil hne
  rw [hd] at hrest
  obtain ⟨rfl, -⟩ := List.cons.inj hrest
  have hspace := hu b (hs.subset (by simp))
  rw [hsp b (by simp)] at hspace
  simp at hspace

theorem exists_blanks_eq (hspace : i.SpaceBefore) :
    ∃ r, i.blanks = trimEnd isSpace i.blanks ++ r ∧ IsRun isSpace r ∧
      ∀ x ∈ (trimEnd isSpace i.blanks).getLast?, isSpace x = false := by
  obtain ⟨r, hblanks, hrun, hlast⟩ := exists_eq_trimEnd_append isSpace i.blanks
  refine ⟨r, hblanks, ⟨?_, hrun⟩, hlast⟩
  rintro rfl
  rw [List.append_nil] at hblanks
  rw [← hblanks] at hlast
  have hx := List.getLast?_eq_some_getLast i.isRun_blanks.1
  exact absurd (hspace _ hx) (by simp [hlast _ hx])

/-- A binding behind a space is written in full with one space. -/
theorem expand_binding_bound {name value : Text} (hi : i.written = .bound name value)
    (hspace : i.SpaceBefore) (hr : c.rest = i.text ++ v) :
    Piece.expand bindingStart (c.pieces binding?) =
      i.fullText ++ Piece.expand bindingStart ((c.advance i.text.length).pieces binding?) := by
  obtain ⟨r, hblanks, hrun, hlast⟩ := exists_blanks_eq hspace
  have hfull : i.fullText = trimEnd isSpace i.blanks ++
      ' ' :: (bindMark ++ name ++ Written.quotedValue value) := by
    simp [fullText, hi, hspace]
  rw [hfull]
  generalize trimEnd isSpace i.blanks = b at hblanks hlast ⊢
  have hname := (hi ▸ i.isPlain : (Written.bound name value).IsPlain).1
  -- The text is what is left of the blanks, what is found, and the value.
  obtain ⟨start, tail, hstart, htail⟩ : ∃ start tail,
      start = r ++ ':' :: (name ++ ['=']) ∧ tail = '"' :: (value ++ ['"']) :=
    ⟨_, _, rfl, rfl⟩
  have hword : i.written.text = ':' :: (name ++ ['=']) ++ tail := by
    simp [hi, Written.text, Written.quotedValue, htail]
  have ht : i.text = b ++ (start ++ tail) := by
    simp [text, hblanks, hword, hstart]
  have hr₁ : c.rest = b ++ (start ++ (tail ++ v)) := by simp [hr, ht]
  have hr₂ := Cursor.rest_advance_append hr₁
  have hr₃ := Cursor.rest_advance_append hr₂
  have hmiss : c.Misses binding? b :=
    misses_blanks hr₁ (fun x hx => i.isRun_blanks.2 x (by simp [hblanks, hx])) hlast
  have hhit := Written.binding?_of_isRun hrun hname hstart hr₂
  have hmiss' : ((c.advance b.length).advance start.length).Misses binding? tail := by
    refine misses_of_not_isSpace hr₃ (fun x hx => ?_) ?_
    · exact not_isSpace_of_mem_text (i := i) (by simp [hword, hx])
    · have hpos : 0 < start.length := List.length_pos_of_ne_nil (by simp [hstart])
      rw [Cursor.pos_advance_append hr₂]
      omega
  rw [Cursor.expand_pieces_of_misses _ hr₁ hmiss,
    Cursor.expand_pieces_of_hit _ hr₂ (by simp [hstart]) hhit,
    Cursor.expand_pieces_of_misses _ hr₃ hmiss', Cursor.advance_advance, Cursor.advance_advance,
    ht, List.length_append, List.length_append]
  simp [bindingStart, Written.quotedValue, htail]

theorem expand_binding (hr : c.rest = i.text ++ v) :
    Piece.expand bindingStart (c.pieces binding?) =
      i.fullText ++ Piece.expand bindingStart ((c.advance i.text.length).pieces binding?) := by
  by_cases hi : (∃ name value, i.written = .bound name value) ∧ i.SpaceBefore
  · obtain ⟨⟨name, value, hi⟩, hspace⟩ := hi
    exact expand_binding_bound hi hspace hr
  · have hfull : i.fullText = i.text := by
      unfold fullText
      split
      · next name value h => exact if_neg fun hs => hi ⟨⟨name, value, h⟩, hs⟩
      · rfl
    rw [hfull]
    have hmiss : c.Misses binding? i.text := by
      refine Cursor.misses_of_suffix hr fun s d hs hne hd hpos => ?_
      by_contra h
      refine hi (eq_bound_of_ne_none hs hne hd (fun h₀ => hs.eq_of_length ?_) h)
      have := hs.length_le
      omega
    exact Cursor.expand_pieces_of_misses _ hr hmiss

/-! ## All steps -/

theorem settled_printed (l : List Parted) : Settled (printed l) := by
  have hmem : ∀ x ∈ printed l, x ≠ '{' ∧ x ≠ '@' := by
    intro x hx
    obtain ⟨i, -, hx⟩ := List.mem_flatMap.1 hx
    rcases List.mem_append.1 hx with hx | hx
    · have hblank := i.isRun_blanks.2 x hx
      refine ⟨?_, ?_⟩ <;> rintro rfl <;> exact absurd hblank (by decide)
    · exact (i.isPlain.of_mem_text x hx).2
  exact settled_of_not_mem (fun h => (hmem _ h).1 rfl) fun h => (hmem _ h).2 rfl

/-- The attribute after all steps. -/
def inFull (i : Parted) : Text :=
  i.fullVariable.fullText

/-- Attributes in full, one after the other. -/
theorem expand_printed_eq (l : List Parted) : expand (printed l) = l.flatMap inFull := by
  have hprinted : printed (l.map fullVariable) = l.flatMap fun i => i.fullVariable.text := by
    rw [printed, List.flatMap_map]
  have hvariables : expandVariables (printed l) = printed (l.map fullVariable) := by
    rw [hprinted]
    exact Cursor.expand_pieces_flatMap (c := Cursor.start (printed l))
      (fun i _ c v hv => expand_boundVariable hv) (fun l' _ => follows_printed l') rfl
  have hbindings : expandBindings (printed (l.map fullVariable)) =
      (l.map fullVariable).flatMap fullText :=
    Cursor.expand_pieces_flatMap (c := Cursor.start (printed (l.map fullVariable)))
      (fun i _ c v _ => expand_binding) (fun l' _ => follows_printed l') rfl
  rw [expand_eq_of_settled (hvariables ▸ settled_printed _), hvariables, hbindings,
    List.flatMap_map]
  rfl

theorem forall_head_append_iff {b r : Text} (hr : IsRun isSpace r) :
    (∀ x ∈ (b ++ [' ']).head?, isSpace x = true) ↔ ∀ x ∈ (b ++ r).head?, isSpace x = true := by
  obtain ⟨a, r, rfl, ha⟩ := hr.exists_cons
  cases b with
  | nil => simp [ha, (by decide : isSpace ' ' = true)]
  | cons y b => simp

theorem exists_fullText_eq (hi : i.written = .bound name s) (hspace : i.SpaceBefore) : ∃ gap,
    i.fullText = gap ++ i.written.inFull ∧ IsRun isBlank gap ∧
      ((∀ x ∈ gap.head?, isSpace x = true) ↔ i.SpaceFirst) := by
  obtain ⟨r, hblanks, hrun, -⟩ := exists_blanks_eq hspace
  refine ⟨trimEnd isSpace i.blanks ++ [' '], ?_, ⟨by simp, fun x hx => ?_⟩, ?_⟩
  · simp [fullText, hi, hspace, Written.inFull]
  · rcases List.mem_append.1 hx with hx | hx
    · exact i.isRun_blanks.2 x ((prefix_trimEnd isSpace i.blanks).subset hx)
    · obtain rfl : x = ' ' := by simpa using hx
      decide
  · rw [SpaceFirst, forall_head_append_iff hrun, ← hblanks]

/-- The attribute in full behind its blanks, of which the first is a space if it was one. -/
theorem exists_inFull_eq (i : Parted) : ∃ gap,
    i.inFull = gap ++ (if i.SpaceBefore then i.written.inFull else i.written.text) ∧
      IsRun isBlank gap ∧ ((∀ x ∈ gap.head?, isSpace x = true) ↔ i.SpaceFirst) := by
  by_cases hspace : i.SpaceBefore
  · rw [if_pos hspace]
    obtain ⟨blanks, w, hb, hp⟩ := i
    cases w with
    | literal name value => exact ⟨blanks, rfl, hb, Iff.rfl⟩
    | bound name value => exact exists_fullText_eq rfl hspace
    | boundVariable name =>
      obtain ⟨b, a, rfl⟩ := (List.eq_nil_or_concat' blanks).resolve_left hb.1
      have hvariable : fullVariable ⟨b ++ [a], .boundVariable name, hb, hp⟩ = _ := if_pos hspace
      obtain ⟨gap, hgap, hrun, hfirst⟩ := exists_fullText_eq
        (i := ⟨(b ++ [a]).dropLast ++ [' '], .bound name ('$' :: name), isRun_dropLast_space hb,
          Written.isPlain_bound_variable hp⟩) rfl (by simp [SpaceBefore, isSpace])
      refine ⟨gap, ?_, hrun, hfirst.trans ?_⟩
      · rw [inFull, hvariable, hgap]
        rfl
      · have ha : isSpace a = true := hspace a (by simp)
        show (∀ x ∈ ((b ++ [a]).dropLast ++ [' ']).head?, isSpace x = true) ↔ _
        rw [List.dropLast_concat]
        exact forall_head_append_iff ⟨by simp, by simpa using ha⟩
    | _ => exact hp.elim
  · rw [if_neg hspace]
    refine ⟨i.blanks, ?_, i.isRun_blanks, Iff.rfl⟩
    obtain ⟨blanks, w, hb, hp⟩ := i
    cases w with
    | literal name value => rfl
    | bound name value => exact if_neg hspace
    | boundVariable name =>
      rw [inFull, fullVariable, if_neg hspace]
      rfl
    | _ => exact hp.elim

end Parted

end ComponentTags
