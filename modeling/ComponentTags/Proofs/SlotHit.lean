import ComponentTags.Proofs.TagHit

/-!
# Finding the tag of a slot

A slot has its name behind a colon, in the attribute `name` at the front of its attributes, or
not at all. The tag of a slot in writing is found up to its own end, and what is found tells its
name in either place and its other attributes (`hit?_slot`).

1. The name behind the colon is read in full (`readInlineName_eq`).
2. The attribute `name` is part of the head if it comes first (`slotNameHead?_eq_some`), and
   otherwise the head ends before the attributes (`slotNameHead?_eq_none`).
-/

namespace ComponentTags

open Text

/-! ## Names -/

/-- Words with a hyphen between two of them. -/
inductive Hyphenated : Text → Prop
  | word {w : Text} (hw : IsRun isWordChar w) : Hyphenated w
  | cons {w rest : Text} (hw : IsRun isWordChar w) (hr : Hyphenated rest) :
      Hyphenated (w ++ '-' :: rest)

theorem Hyphenated.length_pos {s : Text} (h : Hyphenated s) : 0 < s.length := by
  cases h with
  | word hw => exact List.length_pos_iff.2 hw.1
  | cons hw hr =>
    rw [List.length_append, List.length_cons]
    omega

theorem Hyphenated.isTagNameChar {s : Text} (h : Hyphenated s) :
    ∀ x ∈ s, isTagNameChar x = true := by
  induction h with
  | word hw => exact fun x hx => isTagNameChar_of_isWordChar (hw.2 x hx)
  | cons hw hr ih =>
    intro x hx
    rcases List.mem_append.1 hx with hx | hx
    · exact isTagNameChar_of_isWordChar (hw.2 x hx)
    · rcases List.mem_cons.1 hx with rfl | hx
      · decide
      · exact ih x hx

theorem Hyphenated.isWordChar_getLast {s : Text} (h : Hyphenated s) :
    ∀ x ∈ s.getLast?, isWordChar x = true := by
  induction h with
  | word hw => exact fun x hx => hw.2 x (List.mem_of_getLast? hx)
  | @cons w rest hw hr ih =>
    intro x hx
    have hne : rest ≠ [] := List.length_pos_iff.1 hr.length_pos
    rw [List.getLast?_append_of_ne_nil _ (by simp), List.getLast?_cons_of_ne_nil hne] at hx
    exact ih x hx

/-- The name of a slot behind a colon. -/
structure SlotName where
  text : Text
  hyphenated : Hyphenated text

/-- The name of a slot behind its colon, or nothing. -/
def SlotName.textOf : Option SlotName → Text
  | none => []
  | some name => name.text

/-- The colon and the name of a slot, or nothing. -/
def SlotName.withColon : Option SlotName → Text
  | none => []
  | some name => ':' :: name.text

namespace Tag

open TagAttribute

variable {isGap : Char → Bool} {c d : Cursor} {x : Char} {rest v : Text}

theorem hyphenatedLength_append {w : Text} (hw : ∀ x ∈ w, isWordChar x = true) :
    hyphenatedLength true (w ++ rest) = w.length + hyphenatedLength true rest := by
  induction w with
  | nil => simp
  | cons x w ih =>
    rw [List.cons_append, hyphenatedLength, if_pos (hw x (by simp)),
      ih fun y hy => hw y (by simp [hy]), List.length_cons]
    omega

theorem hyphenatedLength_run_append {w : Text} (hw : IsRun isWordChar w) (inWord : Bool) :
    hyphenatedLength inWord (w ++ rest) = w.length + hyphenatedLength true rest := by
  obtain ⟨x, w, rfl, hx⟩ := hw.exists_cons
  rw [List.cons_append, hyphenatedLength, if_pos hx,
    hyphenatedLength_append fun y hy => hw.2 y (by simp [hy]), List.length_cons]
  omega

theorem hyphenatedLength_eq {s : Text} (hs : Hyphenated s) (inWord : Bool)
    (hr : ∀ x ∈ rest.head?, isWordChar x = false ∧ x ≠ '-') :
    hyphenatedLength inWord (s ++ rest) = s.length := by
  induction hs generalizing inWord with
  | word hw =>
    have h₀ : hyphenatedLength true rest = 0 := by
      cases rest with
      | nil => rfl
      | cons x rest =>
        obtain ⟨h₁, h₂⟩ := hr x (by simp)
        simp [hyphenatedLength, h₁, h₂]
    rw [hyphenatedLength_run_append hw, h₀, Nat.add_zero]
  | @cons w s hw hs ih =>
    have hlen := hs.length_pos
    have hword : isWordChar '-' = false := by decide
    have hmore : hyphenatedLength true ('-' :: (s ++ rest)) = s.length + 1 := by
      rw [hyphenatedLength, hword, if_neg (by simp), ih false]
      simp only [beq_self_eq_true, Bool.and_self, if_true]
      split
      · omega
      · omega
    rw [List.append_assoc, List.cons_append, hyphenatedLength_run_append hw, hmore,
      List.length_append, List.length_cons]

def slotOpening : Text :=
  '<' :: 'x' :: '-' :: slotName

theorem afterSlotMark?_eq (hr : c.rest = slotOpening ++ rest) (hx : isGap 'x' = false) :
    afterSlotMark? isGap c = some (c.advance slotOpening.length) := by
  have hr₁ : c.rest = ['<'] ++ ('x' :: '-' :: (slotName ++ rest)) := hr
  have hr₂ : c.rest = ['<', 'x', '-'] ++ (slotName ++ rest) := hr
  have h₁ : (c.advance 1).rest = 'x' :: '-' :: (slotName ++ rest) :=
    Cursor.rest_advance_append hr₁
  have h₂ : (c.advance 3).rest = slotName ++ rest := Cursor.rest_advance_append hr₂
  have hmark : afterComponentMark? (c.advance 1) = some (c.advance 3) := by
    rw [afterComponentMark?_eq h₁, Cursor.advance_advance]
  have hname : (c.advance 3).expect? slotName = some (c.advance slotOpening.length) := by
    rw [Cursor.expect?_append h₂, Cursor.advance_advance]
    rfl
  simp only [afterSlotMark?, afterBracket?_cons hr₁ hx, Option.bind_eq_bind, Option.bind_some,
    hmark, hname]

/-- The name that the first attribute gives to a slot, in its quotes and with whether it is an
expression, and the other attributes. -/
def namedBy? : List (TagAttribute false) → Option (Text × Bool × List (TagAttribute false))
  | [] => none
  | a :: rest =>
    match a.written with
    | .literal name value =>
      if name = "name".toList then some ('"' :: value ++ ['"'], false, rest) else none
    | .bound name value =>
      if name = "name".toList then some ('"' :: value ++ ['"'], true, rest) else none
    | _ => none

theorem not_mem_of_namedBy? {l rest : List (TagAttribute false)} {value : Text} {bound : Bool}
    (h : namedBy? l = some (value, bound, rest)) : '<' ∉ value := by
  have hquote : ∀ {s : Text}, '<' ∉ s → '<' ∉ '"' :: s ++ ['"'] := fun hs =>
    List.not_mem_append (List.not_mem_cons_of_ne_of_not_mem (by decide) hs) (by decide)
  unfold namedBy? at h
  split at h
  · simp at h
  · next a rest' =>
    have hin := a.inTag
    split at h
    · next name value' hw =>
      rw [hw] at hin
      split at h
      · obtain ⟨rfl, -⟩ := by simpa using h
        exact hquote hin
      · simp at h
    · next name value' hw =>
      rw [hw] at hin
      split at h
      · obtain ⟨rfl, -⟩ := by simpa using h
        exact hquote hin
      · simp at h
    · simp at h

def ofSlot (name : Option SlotName) (attributes : List (TagAttribute false))
    (start stop : Nat) : Tag :=
  match namedBy? attributes with
  | none =>
    { name := [], attributes := printed attributes, kind := .slot, start, stop,
      inlineName := SlotName.textOf name, nameAttribute := [], nameBound := false }
  | some (value, bound, rest) =>
    { name := [], attributes := printed rest, kind := .slot, start, stop,
      inlineName := SlotName.textOf name, nameAttribute := value, nameBound := bound }

variable {name : Option SlotName} {l : List (TagAttribute false)} {u : Text}

theorem readInlineName_eq (hr : c.rest = SlotName.withColon name ++ rest)
    (hrest : ∀ x ∈ rest.head?, isDelimiter x = true) :
    readInlineName c = (SlotName.textOf name, c.advance (SlotName.withColon name).length) := by
  have hdelim : ∀ x, isDelimiter x = true → isTagNameChar x = false := by
    intro x hx
    by_contra h
    rw [Bool.not_eq_false] at h
    rw [isDelimiter_of_isAttributeNameChar (isAttributeNameChar_of_isTagNameChar h)] at hx
    simp at hx
  cases name with
  | none =>
    have he : c.expect? [':'] = none := by
      rw [Cursor.expect?_eq_none_iff]
      rintro ⟨t, ht⟩
      have hr' : c.rest = rest := hr
      have := hdelim ':' (hrest ':' (by simp [← hr', ← ht]))
      exact absurd this (by decide)
    rw [readInlineName, he]
    rfl
  | some name =>
    have hr₁ : c.rest = [':'] ++ (name.text ++ rest) := hr
    have h₁ : (c.advance 1).rest = name.text ++ rest := Cursor.rest_advance_append hr₁
    have hlen : hyphenatedLength false (name.text ++ rest) = name.text.length := by
      refine hyphenatedLength_eq name.hyphenated false fun x hx => ?_
      have hx' := hdelim x (hrest x hx)
      refine ⟨?_, ?_⟩
      · by_contra h
        rw [Bool.not_eq_false] at h
        rw [isTagNameChar_of_isWordChar h] at hx'
        simp at hx'
      · rintro rfl
        exact absurd hx' (by decide)
    obtain ⟨n, hn⟩ := Nat.exists_eq_add_one_of_ne_zero (Nat.ne_of_gt name.hyphenated.length_pos)
    have he : c.expect? [':'] = some (c.advance 1) := Cursor.expect?_append hr₁
    have hadd : 1 + name.text.length = (SlotName.withColon (some name)).length :=
      Nat.add_comm 1 _
    unfold readInlineName
    simp only [he, h₁, hlen, hn]
    rw [Cursor.advance_advance, ← hn, List.take_left, hadd]
    rfl

theorem isDelimiter_head_slot (l : List (TagAttribute false)) :
    ∀ x ∈ (printed l ++ '>' :: v).head?, isDelimiter x = true :=
  isDelimiter_head_printed l fun x hx => by
    obtain rfl : '>' = x := by simpa using hx
    decide

def slotHead (name : Option SlotName) : Text :=
  slotOpening ++ SlotName.withColon name

theorem slotHead?_eq (hr : c.rest = slotHead name ++ (printed l ++ '>' :: v)) :
    slotHead? c =
      some { inlineName := SlotName.textOf name, stop := c.advance (slotHead name).length } := by
  have hr₁ : c.rest = slotOpening ++ (SlotName.withColon name ++ (printed l ++ '>' :: v)) := by
    rw [hr, slotHead, List.append_assoc]
  simp only [slotHead?, afterSlotMark?_eq hr₁ (by decide : isSpace 'x' = false),
    Option.bind_eq_bind, Option.bind_some,
    readInlineName_eq (Cursor.rest_advance_append hr₁) (isDelimiter_head_slot l),
    Cursor.advance_advance, ← List.length_append]
  rfl

/-- The mark of the attribute `name` stands before a name only if that is the name. -/
theorem nameMark_prefix_iff {n t : Text} (hn : IsRun Written.isPlainNameChar n)
    (ht : Stops Written.isPlainNameChar t) :
    "name=".toList <+: n ++ t ↔ n = "name".toList ∧ ['='] <+: t := by
  have hmark : "name=".toList = "name".toList ++ ['='] := by decide
  have hname : ∀ x ∈ "name".toList, Written.isPlainNameChar x = true :=
    forall_mem_of_all (by decide)
  constructor
  · rintro ⟨r, hr⟩
    rw [hmark, List.append_assoc] at hr
    have hs : Stops Written.isPlainNameChar (['='] ++ r) := stops_cons.2 (by decide)
    have htake := congrArg (List.takeWhile Written.isPlainNameChar) hr
    rw [takeWhile_append hn.2 ht, takeWhile_append hname hs] at htake
    subst htake
    exact ⟨rfl, r, List.append_cancel_left hr⟩
  · rintro ⟨rfl, r, rfl⟩
    exact ⟨r, by rw [hmark, List.append_assoc]⟩

/-- The head of a slot with the attribute `name` at the cursor, if that is there. -/
def readName? (inline : Text) (bound : Bool) (d : Cursor) : Option Head :=
  (d.expect? "name=".toList).bind fun e => (Token.value? e.rest).bind fun value =>
    some { inlineName := inline, nameAttribute := value, nameBound := bound,
           stop := e.advance value.length }

theorem readName?_of_name {inline n t : Text} {bound : Bool} (hn : IsRun Written.isPlainNameChar n)
    (ht : Stops Written.isPlainNameChar t) (hr : d.rest = n ++ t)
    (h : n ≠ "name".toList ∨ ¬ ['='] <+: t) : readName? inline bound d = none := by
  have he : d.expect? "name=".toList = none := by
    rw [Cursor.expect?_eq_none_iff, hr, nameMark_prefix_iff hn ht]
    rintro ⟨h₁, h₂⟩
    rcases h with h | h
    · exact h h₁
    · exact h h₂
  rw [readName?, he]
  rfl

theorem readName?_quoted {inline value w : Text} {bound : Bool} (hq : '"' ∉ value)
    (hw : ∀ x ∈ w.head?, x = ' ' ∨ x = '>')
    (hr : d.rest = "name".toList ++ Written.quotedValue value ++ w) :
    readName? inline bound d =
      some { inlineName := inline, nameAttribute := '"' :: value ++ ['"'], nameBound := bound,
             stop := d.advance ("name".toList ++ Written.quotedValue value).length } := by
  have hmark : "name=".toList = "name".toList ++ ['='] := by decide
  have hr₁ : d.rest = "name=".toList ++ ('"' :: (value ++ ['"']) ++ w) := by
    rw [hr, hmark, List.append_assoc, List.append_assoc]
    rfl
  have hs : Stops Token.isBareChar w := by
    intro x hx
    rcases hw x hx with rfl | rfl <;> decide
  have hlen : "name=".toList.length + ('"' :: value ++ ['"']).length =
      ("name".toList ++ Written.quotedValue value).length := by
    rw [← List.length_append, hmark, List.append_assoc]
    rfl
  rw [readName?, Cursor.expect?_append hr₁, Option.bind_some, Cursor.rest_advance_append hr₁,
    Token.value?_quoted hq fun _ => hs, Option.bind_some, Cursor.advance_advance, hlen]

/-- The attribute `name` is looked for behind one space, with a colon or without. -/
theorem slotNameHead?_eq {t : Text} (hr : c.rest = slotHead name ++ (' ' :: x :: t))
    (hhead : slotHead? c =
      some { inlineName := SlotName.textOf name, stop := c.advance (slotHead name).length })
    (hx : isSpace x = false) :
    slotNameHead? c =
      if x = ':' then
        readName? (SlotName.textOf name) true (c.advance (slotHead name ++ [' ', ':']).length)
      else readName? (SlotName.textOf name) false (c.advance (slotHead name ++ [' ']).length) := by
  have hr₁ : c.rest = (slotHead name ++ [' ']) ++ (x :: t) := by simp [hr]
  have hs : (c.advance (slotHead name).length).skipWhile isSpace =
      c.advance (slotHead name ++ [' ']).length := by
    rw [Cursor.skipWhile_append (u := [' ']) (Cursor.rest_advance_append hr)
      (forall_mem_of_all (by decide)) (stops_cons.2 hx), Cursor.advance_advance,
      ← List.length_append]
  have hp : ¬ (c.advance (slotHead name ++ [' ']).length).pos ≤
      (c.advance (slotHead name).length).pos := by
    rw [Cursor.pos_advance_append hr₁, Cursor.pos_advance_append hr, List.length_append]
    simp
  have hr₂ := Cursor.rest_advance_append hr₁
  unfold slotNameHead?
  simp only [hhead, Option.bind_eq_bind, Option.bind_some, hs, if_neg hp]
  by_cases hc : x = ':'
  · subst hc
    have he : (c.advance (slotHead name ++ [' ']).length).expect? [':'] =
        some (c.advance (slotHead name ++ [' ', ':']).length) := by
      have hr₃ : (c.advance (slotHead name ++ [' ']).length).rest = [':'] ++ t := hr₂
      rw [Cursor.expect?_append hr₃, Cursor.advance_advance]
      simp
    rw [he, if_pos rfl]
    rfl
  · have he : (c.advance (slotHead name ++ [' ']).length).expect? [':'] = none := by
      rw [Cursor.expect?_eq_none_iff, hr₂]
      rintro ⟨r, hr'⟩
      exact hc (List.cons.inj hr').1.symm
    rw [he, if_neg hc]
    rfl

theorem slotNameHead?_eq_none (hn : namedBy? l = none)
    (hr : c.rest = slotHead name ++ (printed l ++ '>' :: v)) : slotNameHead? c = none := by
  have hhead := slotHead?_eq hr
  cases l with
  | nil =>
    have hs : (c.advance (slotHead name).length).skipWhile isSpace =
        c.advance (slotHead name).length := by
      apply Cursor.skipWhile_of_stops
      rw [Cursor.rest_advance_append hr]
      exact stops_cons.2 (by decide)
    unfold slotNameHead?
    simp only [hhead, Option.bind_eq_bind, Option.bind_some, hs, Nat.le_refl, if_true]
  | cons a l =>
    have hw : Stops Written.isPlainNameChar (printed l ++ '>' :: v) :=
      stops_of_delimited (fun x hx => isDelimiter_of_isAttributeNameChar
        (Written.isAttributeNameChar_of_isPlainNameChar hx)) (isDelimiter_head_slot l)
    obtain ⟨w, hp, ht⟩ := a
    cases w with
    | literal n value =>
      have hne : n ≠ "name".toList := by
        rintro rfl
        simp [namedBy?] at hn
      obtain ⟨x, t, rfl, hx⟩ := hp.1.exists_cons
      have hr₁ : c.rest = slotHead name ++ (' ' :: x :: (t ++ Written.quotedValue value ++
          (printed l ++ '>' :: v))) := by
        simpa [printed_cons, text, Written.text] using hr
      have hc : x ≠ ':' := by
        rintro rfl
        exact absurd hx (by decide)
      rw [slotNameHead?_eq hr₁ hhead (Written.isSpace_of_isPlainNameChar hx), if_neg hc]
      refine readName?_of_name (n := x :: t)
        (t := Written.quotedValue value ++ (printed l ++ '>' :: v)) hp.1 (stops_cons.2 (by decide))
        (Cursor.rest_advance_append ?_) (Or.inl hne)
      simp [hr₁]
    | bound n value =>
      have hne : n ≠ "name".toList := by
        rintro rfl
        simp [namedBy?] at hn
      have hr₁ : c.rest = slotHead name ++ (' ' :: ':' :: (n ++ Written.quotedValue value ++
          (printed l ++ '>' :: v))) := by
        simpa [printed_cons, text, Written.text] using hr
      rw [slotNameHead?_eq hr₁ hhead (by decide), if_pos rfl]
      refine readName?_of_name (n := n)
        (t := Written.quotedValue value ++ (printed l ++ '>' :: v)) hp.1 (stops_cons.2 (by decide))
        (Cursor.rest_advance_append ?_) (Or.inl hne)
      simp [hr₁]
    | flag n =>
      obtain ⟨x, t, rfl, hx⟩ := IsRun.exists_cons hp
      have hr₁ : c.rest = slotHead name ++ (' ' :: x :: (t ++ (printed l ++ '>' :: v))) := by
        simpa [printed_cons, text, Written.text] using hr
      have hc : x ≠ ':' := by
        rintro rfl
        exact absurd hx (by decide)
      have heq : ¬ ['='] <+: printed l ++ '>' :: v := by
        rintro ⟨r, hr'⟩
        have := isDelimiter_head_slot (v := v) l '=' (by simp [← hr'])
        exact absurd this (by decide)
      rw [slotNameHead?_eq hr₁ hhead (Written.isSpace_of_isPlainNameChar hx), if_neg hc]
      refine readName?_of_name (n := x :: t) (t := printed l ++ '>' :: v) hp hw
        (Cursor.rest_advance_append ?_) (Or.inr heq)
      simp [hr₁]
    | boundVariable n => simp [Written.InTag] at ht
    | call directive arguments => simp [Written.InTag] at ht
    | bag inner => exact ht.elim

theorem slotNameHead?_eq_some {value : Text} {bound : Bool} {rest : List (TagAttribute false)}
    (hn : namedBy? l = some (value, bound, rest))
    (hr : c.rest = slotHead name ++ (printed l ++ '>' :: v)) :
    ∃ a, l = a :: rest ∧ slotNameHead? c =
      some { inlineName := SlotName.textOf name, nameAttribute := value, nameBound := bound,
             stop := c.advance (slotHead name ++ (' ' :: a.text)).length } := by
  have hhead := slotHead?_eq hr
  have hw : ∀ l : List (TagAttribute false),
      ∀ x ∈ (printed l ++ '>' :: v).head?, x = ' ' ∨ x = '>' := by
    intro l x hx
    cases l with
    | nil => exact Or.inr (by simpa [printed, eq_comm] using hx)
    | cons a l => exact Or.inl (by simpa [printed_cons, eq_comm] using hx)
  cases l with
  | nil => simp [namedBy?] at hn
  | cons a l =>
    obtain ⟨w, hp, ht⟩ := a
    cases w with
    | literal n value' =>
      simp only [namedBy?] at hn
      split at hn
      · next hname =>
        subst hname
        simp only [Option.some.injEq, Prod.mk.injEq] at hn
        obtain ⟨rfl, rfl, rfl⟩ := hn
        have hr₁ : c.rest = slotHead name ++ (' ' :: 'n' :: ("ame".toList ++
            Written.quotedValue value' ++ (printed l ++ '>' :: v))) := by
          rw [hr, printed_cons, List.append_assoc]
          rfl
        have hr₂ : c.rest = (slotHead name ++ [' ']) ++
            ("name".toList ++ Written.quotedValue value' ++ (printed l ++ '>' :: v)) :=
          hr₁.trans (List.append_assoc (slotHead name) [' '] _).symm
        refine ⟨_, rfl, ?_⟩
        rw [slotNameHead?_eq hr₁ hhead (by decide), if_neg (by decide),
          readName?_quoted hp.2 (hw l) (Cursor.rest_advance_append hr₂), Cursor.advance_advance,
          ← List.length_append, List.append_assoc]
        rfl
      · simp at hn
    | bound n value' =>
      simp only [namedBy?] at hn
      split at hn
      · next hname =>
        subst hname
        simp only [Option.some.injEq, Prod.mk.injEq] at hn
        obtain ⟨rfl, rfl, rfl⟩ := hn
        have hr₁ : c.rest = slotHead name ++ (' ' :: ':' :: ("name".toList ++
            Written.quotedValue value' ++ (printed l ++ '>' :: v))) := by
          rw [hr, printed_cons, List.append_assoc]
          rfl
        have hr₂ : c.rest = (slotHead name ++ [' ', ':']) ++
            ("name".toList ++ Written.quotedValue value' ++ (printed l ++ '>' :: v)) :=
          hr₁.trans (List.append_assoc (slotHead name) [' ', ':'] _).symm
        refine ⟨_, rfl, ?_⟩
        rw [slotNameHead?_eq hr₁ hhead (by decide), if_pos rfl,
          readName?_quoted hp.2 (hw l) (Cursor.rest_advance_append hr₂), Cursor.advance_advance,
          ← List.length_append, List.append_assoc]
        rfl
      · simp at hn
    | boundVariable n => simp [namedBy?] at hn
    | flag n => simp [namedBy?] at hn
    | call directive arguments => simp [namedBy?] at hn
    | bag inner => exact ht.elim

theorem takes_slot : Grammar.slot.Takes false := by
  have h : Form.opening.grammar.Takes true := Form.takes fun _ => ⟨rfl, rfl⟩
  exact ⟨by simp, h.ending⟩

theorem complete?_slot (inlineName nameAttribute : Text) (nameBound : Bool)
    {rest : List (TagAttribute false)} (hr : c.rest = u ++ (printed rest ++ '>' :: v))
    (hne : u ≠ []) (hu : ∀ x ∈ u.getLast?, x ≠ '/' ∧ x ≠ '=' ∧ x ≠ '-') :
    Grammar.slot.complete? c { inlineName, nameAttribute, nameBound, stop := c.advance u.length } =
      some { name := [], attributes := printed rest, kind := .slot, start := c.pos,
             stop := c.pos + (u ++ printed rest ++ ['>']).length,
             inlineName, nameAttribute, nameBound } := by
  have hr₁ := Cursor.rest_advance_append hr
  have hr₂ : c.rest = (u ++ printed rest) ++ '>' :: v := by rw [hr, List.append_assoc]
  have hr₃ : c.rest = (u ++ printed rest ++ ['>']) ++ v := by simp [hr]
  have hend : Grammar.slot.ending (c.advance (u ++ printed rest).length) =
      some (c.advance (u ++ printed rest ++ ['>']).length) :=
    bracketEnd?_eq hr₂ (by simp [hne]) (getLast_append_printed rest hne hu)
  have hscan := takes_slot.scan_eq_finish rest hr₁ (List.forall_mem_nil _) (Or.inr rfl)
  rw [List.append_nil, Cursor.advance_advance, ← List.length_append, Grammar.finish, hend,
    Option.map_some] at hscan
  have hup : (c.advance u.length).upTo (c.advance (u ++ printed rest).length) = printed rest := by
    rw [List.length_append, ← Cursor.advance_advance]
    exact Cursor.upTo_advance_append hr₁
  rw [Grammar.complete?, Grammar.search_eq_scan, hscan, Option.map_some, hup,
    Cursor.pos_advance_append hr₃]
  rfl

theorem getLast_slotHead (name : Option SlotName) :
    ∀ x ∈ (slotHead name).getLast?, x ≠ '/' ∧ x ≠ '=' ∧ x ≠ '-' := by
  cases name with
  | none =>
    intro x hx
    have hl : (slotHead none).getLast? = some 't' := by decide
    obtain rfl : 't' = x := by simpa [hl] using hx
    decide
  | some name =>
    intro x hx
    have hne : name.text ≠ [] := List.length_pos_iff.1 name.hyphenated.length_pos
    have hl : (slotHead (some name)).getLast? = name.text.getLast? := by
      rw [slotHead, SlotName.withColon, List.getLast?_append_of_ne_nil _ (by simp),
        List.getLast?_cons_of_ne_nil hne]
    rw [hl] at hx
    have hw := name.hyphenated.isWordChar_getLast x hx
    refine ⟨?_, ?_, ?_⟩ <;> rintro rfl <;> exact absurd hw (by decide)

@[simp] theorem start_ofSlot (start stop : Nat) : (ofSlot name l start stop).start = start := by
  unfold ofSlot
  split <;> rfl

@[simp] theorem stop_ofSlot (start stop : Nat) : (ofSlot name l start stop).stop = stop := by
  unfold ofSlot
  split <;> rfl

theorem tagAt?_slot (hr : c.rest = slotHead name ++ (printed l ++ '>' :: v)) :
    Grammar.slot.tagAt? c =
      some (ofSlot name l c.pos (c.pos + (slotHead name ++ printed l ++ ['>']).length)) := by
  have hne : slotHead name ≠ [] := by simp [slotHead, slotOpening]
  have hlast := getLast_slotHead name
  show [slotNameHead?, slotHead?].findSome? _ = _
  unfold ofSlot
  split
  · next hn =>
    have hc := complete?_slot (SlotName.textOf name) [] false hr hne hlast
    simp only [List.findSome?_cons, slotNameHead?_eq_none hn hr, Option.bind_none,
      slotHead?_eq hr, Option.bind_some, hc]
  · next value bound rest hn =>
    obtain ⟨a, rfl, hhead⟩ := slotNameHead?_eq_some hn hr
    have hr₂ : c.rest = (slotHead name ++ (' ' :: a.text)) ++ (printed rest ++ '>' :: v) := by
      rw [hr, printed_cons, List.append_assoc, List.append_assoc]
    have hlast₂ := getLast_append_printed [a] hne hlast
    rw [printed_cons, printed, List.flatMap_nil, List.append_nil] at hlast₂
    have hc := complete?_slot (SlotName.textOf name) value bound hr₂ (by simp) hlast₂
    rw [printed_cons, ← List.append_assoc, List.findSome?_cons, hhead, Option.bind_some, hc]

/-- **Slots.** The tag of a slot is found up to its end, with what it is written to say. -/
theorem hit?_slot (hr : c.rest = (slotHead name ++ printed l ++ ['>']) ++ v) :
    ∃ stop, Grammar.slot.hit? c =
      some (ofSlot name l c.pos stop, (slotHead name ++ printed l ++ ['>']).length) := by
  have hr₁ : c.rest = slotHead name ++ (printed l ++ '>' :: v) := by simp [hr]
  have hbegin : Grammar.slot.mayBegin c = true := by
    have hr₂ : c.rest = slotOpening ++ (SlotName.withColon name ++ (printed l ++ '>' :: v)) := by
      rw [hr₁, slotHead, List.append_assoc]
    show (afterSlotMark? isBlank c).isSome = true
    rw [afterSlotMark?_eq hr₂ (by decide)]
    rfl
  refine ⟨c.pos + (slotHead name ++ printed l ++ ['>']).length, ?_⟩
  rw [Grammar.hit?, if_pos hbegin, tagAt?_slot hr₁, Option.map_some, start_ofSlot, stop_ofSlot,
    Nat.add_sub_cancel_left]

theorem opens_of_hit?_slot {found : Tag × Nat} (h : Grammar.slot.hit? c = some found) :
    c.Opens 'x' := by
  obtain ⟨e, he⟩ := Option.isSome_iff_exists.1 (Grammar.hit?_eq_some_iff.1 h).1
  simp only [afterSlotMark?, Option.bind_eq_bind, Option.bind_eq_some_iff] at he
  obtain ⟨d, hd, d', hd', -⟩ := he
  obtain ⟨rest, hrest⟩ := exists_of_afterComponentMark? hd'
  exact opens_of_afterBracket? hd hrest

/-- A component with another name is no slot. -/
theorem hit?_slot_eq_none (hr : c.rest = '<' :: 'x' :: '-' :: rest)
    (hn : ¬ slotName <+: rest) : Grammar.slot.hit? c = none := by
  have hr₁ : c.rest = ['<', 'x', '-'] ++ rest := hr
  have h₁ : (c.advance 1).rest = 'x' :: '-' :: rest := Cursor.rest_advance_append (u := ['<']) hr
  have h₂ : (c.advance 3).rest = rest := Cursor.rest_advance_append hr₁
  have hm : afterComponentMark? (c.advance 1) = some (c.advance 3) := by
    rw [afterComponentMark?_eq h₁, Cursor.advance_advance]
  have he : (c.advance 3).expect? slotName = none := by
    rwa [Cursor.expect?_eq_none_iff, h₂]
  have hs : afterSlotMark? isBlank c = none := by
    simp only [afterSlotMark?, afterBracket?_cons hr (by decide : isBlank 'x' = false),
      Option.bind_eq_bind, Option.bind_some, hm, he]
  unfold Grammar.hit?
  rw [show Grammar.slot.mayBegin c = false from by
    show (afterSlotMark? isBlank c).isSome = false
    rw [hs]
    rfl]
  rfl

end Tag

end ComponentTags
