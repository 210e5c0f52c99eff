import ComponentTags.Proofs.Expansion
import ComponentTags.Proofs.Occurrences

/-!
# Short forms in a text

What a text may hold of each short form, said without the searches, and what is left of it when
the text is written in full.

1. A search finds nothing exactly if the text does not hold the form (`misses_boundVariable?_iff`,
   `misses_bagEcho?_iff`, `misses_call?_iff`, `misses_binding?_iff`).
2. In full, a text holds no bound variable and no binding (`not_behind_variable_expand`,
   `not_apart_binding_expandBindings`). Echos of the attribute bag and calls can be left.
-/

namespace ComponentTags.Shorthand

open Text

variable {α : Type} {hit : Cursor → Option (α × Nat)} {f : α → Text} {c d : Cursor}
  {p : Char → Bool} {P : Text → Prop} {s t u v : Text} {a w : Char}

/-! ## The forms -/

/-- The front of a bound variable, up to the first character of its name. -/
def IsVariable (u : Text) : Prop :=
  ∃ w, isWordChar w = true ∧ u = [':', '$', w]

def IsBag (u : Text) : Prop :=
  ∃ gap inner, (∀ x ∈ gap, isBlank x = true) ∧ '}' ∉ inner ∧
    u = '{' :: '{' :: (gap ++ bagName ++ inner ++ ['}', '}'])

/-- A call of a directive, with its arguments. -/
def IsCall (directive : StyleCall) (u : Text) : Prop :=
  ∃ arguments, Group.IsGroup arguments ∧ u = '@' :: directive.name ++ arguments

/-- A single colon, a name and an equals sign. -/
def IsBinding (u : Text) : Prop :=
  ∃ name, IsRun isAttributeNameChar name ∧ name.head? ≠ some ':' ∧ u = ':' :: (name ++ ['='])

/-- A text of the form `P` stands behind a character of a class. -/
def Behind (p : Char → Bool) (P : Text → Prop) (t : Text) : Prop :=
  ∃ a u, p a = true ∧ P u ∧ a :: u <:+: t

/-- A text of the form `P` stands at the front or behind a character of a class. -/
def Apart (p : Char → Bool) (P : Text → Prop) (t : Text) : Prop :=
  (∃ u, P u ∧ u <+: t) ∨ Behind p P t

def HoldsCall (directive : StyleCall) (t : Text) : Prop :=
  ∃ u, IsCall directive u ∧ u <:+: t

theorem Behind.mono (h : Behind p P t) (ht : t <:+: u) : Behind p P u := by
  obtain ⟨a, w, ha, hw, hi⟩ := h
  exact ⟨a, w, ha, hw, hi.trans ht⟩

/-! ## Searches -/

theorem misses_boundVariable?_iff :
    (Cursor.start t).Misses boundVariable? t ↔ ¬ Behind isSpace IsVariable t := by
  rw [Cursor.misses_start_iff]
  constructor
  · rintro h ⟨a, u, ha, ⟨w, hw, rfl⟩, hi⟩
    obtain ⟨d, hd, v, hv⟩ := Cursor.exists_text_eq hi
    have hnone := h d hd (by simp [← hv])
    simp [boundVariable?, ← hv, ha, hw] at hnone
  · intro h d hd _
    by_contra hsome
    obtain ⟨⟨name, n⟩, hsome⟩ := Option.ne_none_iff_exists'.1 hsome
    obtain ⟨a, rest, hr, ha, hname, -⟩ := boundVariable?_eq_some_iff.1 hsome
    obtain ⟨w, name, rfl, hw⟩ := hname.exists_cons
    refine h ⟨a, _, ha, ⟨w, hw, rfl⟩, ?_⟩
    have hp : [a, ':', '$', w] <+: d.rest := ⟨name ++ rest, by simp [hr]⟩
    exact hp.isInfix.trans (hd ▸ d.rest_suffix_text.isInfix)

/-- A search for a form behind a run of a class, or at the front of the text. -/
theorem misses_iff_of_run (hP : ∀ u, P u → u ≠ [])
    (hhit : ∀ d, hit d ≠ none ↔ ∃ r u v, d.rest = r ++ (u ++ v) ∧ (∀ x ∈ r, p x = true) ∧
      (r ≠ [] ∨ d.pos = 0) ∧ P u) :
    c.Misses hit c.rest ↔ ¬ (c.pos = 0 ∧ ∃ u, P u ∧ u <+: c.rest) ∧ ¬ Behind p P c.rest := by
  constructor
  · refine fun h => ⟨?_, ?_⟩
    · rintro ⟨hpos, u, hu, v, hv⟩
      refine (hhit c).2 ⟨[], u, v, hv.symm, by simp, Or.inr hpos, hu⟩ (h 0 ?_)
      exact List.length_pos_iff.2 (by simp [← hv, hP u hu])
    · rintro ⟨a, u, ha, hu, s, v, hv⟩
      have hr : c.rest = s ++ (a :: u ++ v) := by rw [← hv, List.append_assoc]
      refine (hhit (c.advance s.length)).2 ⟨[a], u, v, Cursor.rest_advance_append hr,
        by simpa using ha, Or.inl (by simp), hu⟩ (h s.length ?_)
      rw [hr, List.length_append, List.cons_append, List.length_cons]
      omega
  · rintro ⟨hfront, hbehind⟩ k hk
    by_contra hsome
    obtain ⟨r, u, v, hr, hrun, hpos, hu⟩ := (hhit _).1 hsome
    have hsuffix : (c.advance k).rest <:+ c.rest := by
      rw [Cursor.rest_advance]
      exact List.drop_suffix k c.rest
    rcases List.eq_nil_or_concat r with rfl | ⟨r, a, rfl⟩
    · have h₀ : c.pos + k = 0 := by
        rw [← Cursor.pos_advance (Nat.le_of_lt hk)]
        exact hpos.resolve_left (by simp)
      obtain rfl : k = 0 := by omega
      exact hfront ⟨by omega, u, hu, v, hr.symm⟩
    · have hi : a :: u <:+: (c.advance k).rest := ⟨r, v, by simp [hr]⟩
      exact hbehind ⟨a, u, hrun a (by simp), hu, hi.trans hsuffix.isInfix⟩

/-- From the front of a text on, the form can stand there too. -/
theorem misses_start_iff_of_run (hP : ∀ u, P u → u ≠ [])
    (hhit : ∀ d, hit d ≠ none ↔ ∃ r u v, d.rest = r ++ (u ++ v) ∧ (∀ x ∈ r, p x = true) ∧
      (r ≠ [] ∨ d.pos = 0) ∧ P u) :
    (Cursor.start t).Misses hit t ↔ ¬ Apart p P t := by
  have h := misses_iff_of_run (c := Cursor.start t) hP hhit
  simp only [Cursor.pos_start, true_and] at h
  rw [Apart, not_or]
  exact h

theorem bagEcho?_ne_none_iff :
    bagEcho? d ≠ none ↔ ∃ r u v, d.rest = r ++ (u ++ v) ∧ (∀ x ∈ r, isBlank x = true) ∧
      (r ≠ [] ∨ d.pos = 0) ∧ IsBag u := by
  rw [Option.ne_none_iff_exists']
  constructor
  · rintro ⟨⟨text, n⟩, h⟩
    obtain ⟨blanks, rest, inner, m, hr, hb, hp, hbag, -⟩ := bagEcho?_eq_some_iff.1 h
    obtain ⟨gap, v, rfl, hgap, hinner, -⟩ := bag?_eq_some_iff.1 hbag
    exact ⟨blanks, _, v, by simp [hr], hb, hp, gap, inner, hgap, hinner, rfl⟩
  · rintro ⟨r, u, v, hr, hrun, hp, gap, inner, hgap, hinner, rfl⟩
    have hbag := bag?_eq_some_iff.2 ⟨gap, v, rfl, hgap, hinner, rfl⟩
    exact ⟨_, bagEcho?_eq_some_iff.2 ⟨r, _, inner, _, by simp [hr], hrun, hp, hbag, rfl, rfl⟩⟩

theorem binding?_ne_none_iff :
    binding? d ≠ none ↔ ∃ r u v, d.rest = r ++ (u ++ v) ∧ (∀ x ∈ r, isSpace x = true) ∧
      (r ≠ [] ∨ d.pos = 0) ∧ IsBinding u := by
  rw [Option.ne_none_iff_exists']
  constructor
  · rintro ⟨⟨name, n⟩, h⟩
    obtain ⟨spaces, v, hr, hs, hp, hname, hcolon, -⟩ := binding?_eq_some_iff.1 h
    exact ⟨spaces, _, v, by simp [hr], hs, hp, name, hname, hcolon, rfl⟩
  · rintro ⟨r, u, v, hr, hrun, hp, name, hname, hcolon, rfl⟩
    exact ⟨_, binding?_eq_some_iff.2 ⟨r, v, by simp [hr], hrun, hp, hname, hcolon, rfl⟩⟩

theorem IsBag.ne_nil (h : IsBag u) : u ≠ [] := by
  obtain ⟨gap, inner, -, -, rfl⟩ := h
  simp

theorem IsBinding.ne_nil (h : IsBinding u) : u ≠ [] := by
  obtain ⟨name, -, -, rfl⟩ := h
  simp

theorem misses_bagEcho?_iff :
    (Cursor.start t).Misses bagEcho? t ↔ ¬ Apart isBlank IsBag t :=
  misses_start_iff_of_run (fun _ => IsBag.ne_nil) fun _ => bagEcho?_ne_none_iff

theorem misses_binding?_iff :
    (Cursor.start t).Misses binding? t ↔ ¬ Apart isSpace IsBinding t :=
  misses_start_iff_of_run (fun _ => IsBinding.ne_nil) fun _ => binding?_ne_none_iff

theorem misses_call?_iff (directive : StyleCall) :
    (Cursor.start t).Misses (call? directive.name) t ↔ ¬ HoldsCall directive t := by
  rw [Cursor.misses_start_iff]
  constructor
  · rintro h ⟨u, ⟨arguments, hg, rfl⟩, hi⟩
    obtain ⟨d, hd, v, hv⟩ := Cursor.exists_text_eq hi
    have hsome : call? directive.name d = some (arguments, _) :=
      call?_eq_some_iff.2 ⟨v, hv.symm, hg, rfl⟩
    rw [h d hd (by simp [← hv])] at hsome
    cases hsome
  · intro h d hd _
    by_contra hsome
    obtain ⟨⟨arguments, n⟩, hsome⟩ := Option.ne_none_iff_exists'.1 hsome
    obtain ⟨rest, hr, hg, -⟩ := call?_eq_some_iff.1 hsome
    refine h ⟨_, ⟨arguments, hg, rfl⟩, ?_⟩
    exact (List.prefix_append _ rest).isInfix.trans (hr ▸ hd ▸ d.rest_suffix_text.isInfix)

/-! ## Nothing to do -/

theorem expandVariables_eq_self (h : ¬ Behind isSpace IsVariable t) : expandVariables t = t :=
  Cursor.expand_of_misses (c := Cursor.start t) _ (misses_boundVariable?_iff.2 h)

theorem expandBag_eq_self (h : ¬ Apart isBlank IsBag t) : expandBag t = t :=
  Cursor.expand_of_misses (c := Cursor.start t) _ (misses_bagEcho?_iff.2 h)

theorem expandCalls_eq_self {directive : StyleCall} (h : ¬ HoldsCall directive t) :
    expandCalls directive.name directive.helper t = t :=
  Cursor.expand_of_misses (c := Cursor.start t) _ ((misses_call?_iff directive).2 h)

theorem expandBindings_eq_self (h : ¬ Apart isSpace IsBinding t) : expandBindings t = t :=
  Cursor.expand_of_misses (c := Cursor.start t) _ (misses_binding?_iff.2 h)

/-! ## No bound variable is left -/

theorem ne_of_isSpace {b : Char} (ha : isSpace a = true) (hb : isSpace b = false) : a ≠ b := by
  rintro rfl
  simp [ha] at hb

theorem isSpace_of_isWordChar (h : isWordChar w = true) : isSpace w = false :=
  isSpace_of_isAttributeNameChar
    (isAttributeNameChar_of_isTagNameChar (isTagNameChar_of_isWordChar h))

/-- A bound variable that begins in a bound attribute ends in its value. -/
theorem infix_of_prefix_bound {name value : Text} (hname : IsRun isWordChar name)
    (ha : isSpace a = true) (hw : isWordChar w = true) (hs : s <:+ (Written.bound name value).text)
    (hne : s ≠ []) (hp : [a, ':', '$', w] <+: s ++ v) : [a, ':', '$', w] <:+: value := by
  have htext : (Written.bound name value).text = (':' :: name ++ ['=', '"'] ++ value) ++ ['"'] := by
    simp [Written.text, Written.quotedValue]
  have hq : '"' ∉ [a, ':', '$', w] := by
    have h₁ : a ≠ '"' := ne_of_isSpace ha (by decide)
    have h₂ : '"' ≠ w := by
      rintro rfl
      exact absurd hw (by decide)
    simp [h₁.symm, h₂]
  have hfront : a ∉ ':' :: name ++ ['=', '"'] := by
    have h₁ : a ∉ name := fun h => ne_of_isSpace ha (isSpace_of_isWordChar (hname.2 a h)) rfl
    have h₂ : ∀ x ∈ [':', '=', '"'], a ≠ x := fun x hx =>
      ne_of_isSpace ha (forall_mem_of_all (P := fun x => isSpace x = false) (by decide) x hx)
    simp [h₁, h₂]
  rw [htext] at hs
  obtain ⟨s, rfl, hs'⟩ := (List.suffix_concat_iff.1 hs).resolve_left hne
  rw [List.append_assoc] at hp
  have hi := (prefix_of_prefix_append_cons hq hp).isInfix.trans hs'.isInfix
  exact (infix_append_iff_of_not_mem hfront).1 hi

/-- A replacement that begins with a space keeps bound variables out. -/
theorem keepsOut_variable_of_space (hf : ∀ item, ∃ r, f item = ' ' :: r)
    (hw : isWordChar w = true) : Cursor.KeepsOut hit f [':', '$', w] := by
  refine Cursor.keepsOut_of_head fun d item n _ => ?_
  obtain ⟨r, hr⟩ := hf item
  refine ⟨' ', r, hr, ?_⟩
  have hne : ' ' ≠ w := ne_of_isSpace (by decide) (isSpace_of_isWordChar hw)
  simp [hne]

theorem keepsOut_variable_of_call (directive : StyleCall) (hw : isWordChar w = true) :
    Cursor.KeepsOut (call? directive.name) (callAttribute directive.name directive.helper)
      [':', '$', w] := by
  obtain ⟨b, r, hname, hb⟩ := directive.isRun_name.exists_cons
  have hdollar : '$' ≠ b := by
    rintro rfl
    exact absurd hb (by decide)
  have hcolon : ':' ≠ w := by
    rintro rfl
    exact absurd hw (by decide)
  intro d arguments n _ s v hs hne hp
  have hcases : s = [':', '$', w] ∨ s = ['$', w] ∨ s = [w] := by
    simpa [List.suffix_cons_iff, hne] using hs
  rcases hcases with rfl | rfl | rfl
  · simp [callAttribute, hname, List.cons_prefix_cons, hdollar] at hp
  · simp [callAttribute, List.cons_prefix_cons] at hp
  · simp [callAttribute, List.cons_prefix_cons, hcolon.symm] at hp

/-- No new bound variable comes about, if none does in what is put in. -/
theorem behind_variable_of_expand
    (hout : ∀ w, isWordChar w = true → Cursor.KeepsOut hit f [':', '$', w])
    (hin : ∀ d item n s v a w, hit d = some (item, n) → isSpace a = true → isWordChar w = true →
      s <:+ f item → s ≠ [] → [a, ':', '$', w] <+: s ++ v → [a, ':', '$', w] <:+: d.rest)
    (h : Behind isSpace IsVariable (Piece.expand f (c.pieces hit))) :
    Behind isSpace IsVariable c.rest := by
  obtain ⟨a, u, ha, ⟨w, hw, rfl⟩, hi⟩ := h
  refine ⟨a, _, ha, ⟨w, hw, rfl⟩, ?_⟩
  rcases Cursor.infix_expand (hout w hw) hi with
    ⟨d, hd, -, hp⟩ | ⟨d, item, n, s, v, hd, hh, hs, hne, hp⟩
  · exact hp.isInfix.trans hd.isInfix
  · exact (hin d item n s v a w hh ha hw hs hne hp).trans hd.isInfix

/-- An occurrence behind a space that begins in a text with one space begins with it. -/
theorem prefix_of_prefix_space {r : Text} (hr : ∀ x ∈ r, isSpace x = false)
    (ha : isSpace a = true) (hs : s <:+ ' ' :: r) (hne : s ≠ []) (hp : a :: u <+: s ++ v) :
    u <+: r ++ v := by
  obtain ⟨b, s, rfl⟩ := List.exists_cons_of_ne_nil hne
  obtain ⟨rfl, hu⟩ := List.cons_prefix_cons.1 hp
  rcases List.suffix_cons_iff.1 hs with hs | hs
  · rwa [(List.cons.inj hs).2] at hu
  · rw [hr a (hs.subset (by simp))] at ha
    simp at ha

theorem not_behind_variable_expandVariables (t : Text) :
    ¬ Behind isSpace IsVariable (expandVariables t) := by
  rintro ⟨a, u, ha, ⟨w, hw, rfl⟩, hi⟩
  rcases Cursor.infix_expand (keepsOut_variable_of_space (fun name => ⟨_, rfl⟩) hw) hi with
    ⟨d, -, hh, v, hv⟩ | ⟨d, name, n, s, v, -, hh, hs, hne, hp⟩
  · simp [boundVariable?, ← hv, ha, hw] at hh
  · obtain ⟨-, -, -, -, hname, -⟩ := boundVariable?_eq_some_iff.1 hh
    have hspace : ∀ x ∈ name, isSpace x = false := fun x hx => isSpace_of_isWordChar (hname.2 x hx)
    have hr : ∀ x ∈ ':' :: (name ++ ['=', '"', '$'] ++ name ++ ['"']), isSpace x = false := by
      rw [List.forall_mem_cons, List.forall_mem_append, List.forall_mem_append,
        List.forall_mem_append]
      exact ⟨by decide, ⟨⟨hspace, forall_mem_of_all (by decide)⟩, hspace⟩,
        forall_mem_of_all (by decide)⟩
    have hu := prefix_of_prefix_space hr ha (by simpa [variableAttribute] using hs) hne hp
    obtain ⟨b, name, rfl, hb⟩ := hname.exists_cons
    obtain ⟨rfl, -⟩ : '$' = b ∧ _ := by simpa [List.cons_prefix_cons] using hu
    exact absurd hb (by decide)

theorem behind_variable_of_expandBag (h : Behind isSpace IsVariable (expandBag t)) :
    Behind isSpace IsVariable t := by
  have hname : IsRun isWordChar "attributes".toList := by decide
  have hbag : ∀ x ∈ bagName, isSpace x = false := forall_mem_of_all (by decide)
  have hfront : ∀ inner, ∃ r, bagAttribute inner = ' ' :: r :=
    fun inner => ⟨_, Spaced.bagAttribute_eq inner⟩
  refine behind_variable_of_expand (c := Cursor.start t)
    (fun w hw => keepsOut_variable_of_space hfront hw) ?_ h
  intro d text n s v a w hh ha hw hs hne hp
  obtain ⟨blanks, rest, inner, m, hr, -, -, hecho, rfl, -⟩ := bagEcho?_eq_some_iff.1 hh
  obtain ⟨gap, tail, rfl, -⟩ := bag?_eq_some_iff.1 hecho
  rw [Spaced.bagAttribute_eq] at hs
  have hvalue : [a, ':', '$', w] <:+: bagName ++ trimEnd isBlank inner := by
    rcases List.suffix_cons_iff.1 hs with rfl | hs
    · -- Behind the space comes the name of the attribute.
      obtain ⟨b, name, hb, hword⟩ := hname.exists_cons
      rw [Written.text, hb] at hp
      have hdollar : '$' = b := by
        simp only [List.cons_append, List.cons_prefix_cons] at hp
        exact hp.2.2.1
      subst hdollar
      exact absurd hword (by decide)
    · exact infix_of_prefix_bound hname ha hw hs hne hp
  have hinner : [a, ':', '$', w] <:+: inner := by
    refine ((infix_append_iff_of_not_mem fun hm => ?_).1 hvalue).trans
      (prefix_trimEnd isBlank inner).isInfix
    exact ne_of_isSpace ha (hbag a hm) rfl
  refine hinner.trans ⟨blanks ++ '{' :: '{' :: (gap ++ bagName), '}' :: '}' :: tail, ?_⟩
  simp [hr]

theorem behind_variable_of_expandCalls (directive : StyleCall)
    (h : Behind isSpace IsVariable (expandCalls directive.name directive.helper t)) :
    Behind isSpace IsVariable t := by
  have hhelper : ∀ x ∈ directive.helper, isSpace x = false := by
    cases directive <;> exact forall_mem_of_all (by decide)
  refine behind_variable_of_expand (c := Cursor.start t)
    (fun w hw => keepsOut_variable_of_call directive hw) ?_ h
  intro d arguments n s v a w hh ha hw hs hne hp
  obtain ⟨rest, hr, -⟩ := call?_eq_some_iff.1 hh
  have htext : callAttribute directive.name directive.helper arguments =
      (Written.bound directive.name
        (directive.helper ++ replaceChar '"' ['\x27'] arguments)).text := by
    simp [callAttribute, Written.text, Written.quotedValue]
  rw [htext] at hs
  have hvalue := infix_of_prefix_bound directive.isRun_name ha hw hs hne hp
  have harguments : [a, ':', '$', w] <:+: arguments := by
    rw [infix_append_iff_of_not_mem fun hm => ne_of_isSpace ha (hhelper a hm) rfl] at hvalue
    refine infix_of_infix_replaceChar (by simp) (fun x hx => ?_) hvalue
    obtain rfl : x = '\x27' := by simpa using hx
    have h₁ : a ≠ '\x27' := ne_of_isSpace ha (by decide)
    have h₂ : '\x27' ≠ w := by
      rintro rfl
      exact absurd hw (by decide)
    simp [h₁.symm, h₂]
  exact harguments.trans ⟨'@' :: directive.name, rest, hr.symm⟩

theorem bindingStart_eq (name : Text) : bindingStart name = ' ' :: (bindMark ++ name ++ ['=']) :=
  rfl

theorem isSpace_of_mem_bindingStart {name : Text} {n : Nat} (h : binding? d = some (name, n)) :
    ∀ x ∈ bindMark ++ name ++ ['='], isSpace x = false := by
  obtain ⟨-, -, -, -, -, hname, -⟩ := binding?_eq_some_iff.1 h
  rw [List.forall_mem_append, List.forall_mem_append]
  exact ⟨⟨forall_mem_of_all (by decide), fun x hx => isSpace_of_isAttributeNameChar (hname.2 x hx)⟩,
    forall_mem_of_all (by decide)⟩

/-- What is put in for a binding holds no colon behind its space. -/
theorem not_prefix_bindingStart {name : Text} {n : Nat} (h : binding? d = some (name, n))
    (ha : isSpace a = true) (hs : s <:+ bindingStart name) (hne : s ≠ []) :
    ¬ a :: ':' :: u <+: s ++ v := by
  intro hp
  have hu := prefix_of_prefix_space (isSpace_of_mem_bindingStart h) ha hs hne hp
  have hmark : bindMark = 'b' :: bindMark.tail := by decide
  rw [hmark] at hu
  exact absurd (List.cons_prefix_cons.1 hu).1 (by decide)

theorem behind_variable_of_expandBindings (h : Behind isSpace IsVariable (expandBindings t)) :
    Behind isSpace IsVariable t := by
  refine behind_variable_of_expand (c := Cursor.start t)
    (fun w hw => keepsOut_variable_of_space (fun name => ⟨_, rfl⟩) hw) ?_ h
  intro d name n s v a w hh ha hw hs hne hp
  exact absurd hp (not_prefix_bindingStart hh ha hs hne)

/-- **Variables.** In full, a text holds no bound variable. -/
theorem not_behind_variable_expand (t : Text) : ¬ Behind isSpace IsVariable (expand t) := by
  intro h
  have h₁ := behind_variable_of_expandBindings h
  have h₂ := behind_variable_of_expandCalls .classes (behind_variable_of_expandCalls .styles h₁)
  exact not_behind_variable_expandVariables t (behind_variable_of_expandBag h₂)

/-! ## No binding is left -/

/-- **Bindings.** In full, a text holds no single colon with a name and an equals sign. -/
theorem not_apart_binding_expandBindings (t : Text) :
    ¬ Apart isSpace IsBinding (expandBindings t) := by
  have hout : ∀ {name}, IsRun isAttributeNameChar name →
      Cursor.KeepsOut binding? bindingStart (':' :: (name ++ ['='])) := by
    intro name hname
    refine Cursor.keepsOut_of_head fun d item n _ => ⟨' ', _, bindingStart_eq item, fun hm => ?_⟩
    have hspace : isSpace ' ' = false := by
      rcases List.mem_cons.1 hm with hm | hm
      · simp at hm
      rcases List.mem_append.1 hm with hm | hm
      · exact isSpace_of_isAttributeNameChar (hname.2 _ hm)
      · simp at hm
    exact absurd hspace (by decide)
  rintro (⟨u, ⟨name, hname, hcolon, rfl⟩, hp⟩ | ⟨a, u, ha, ⟨name, hname, hcolon, rfl⟩, hi⟩)
  · obtain ⟨⟨v, hv⟩, hnone⟩ := Cursor.prefix_of_prefix_expand (hout hname) hp
    exact binding?_ne_none_iff.2 ⟨[], _, v, hv.symm, by simp, Or.inr rfl, name, hname, hcolon, rfl⟩
      (hnone (by simp))
  · rcases Cursor.infix_expand (hout hname) hi with
      ⟨d, -, hnone, v, hv⟩ | ⟨d, item, n, s, v, -, hh, hs, hne, hp⟩
    · exact binding?_ne_none_iff.2 ⟨[a], _, v, hv.symm, by simpa using ha, Or.inl (by simp), name,
        hname, hcolon, rfl⟩ hnone
    · exact not_prefix_bindingStart hh ha hs hne hp

end ComponentTags.Shorthand
