import ComponentTags.Attribute.Map
import ComponentTags.Proofs.Shorthand
import Mathlib.Data.List.Infix

/-!
# Attributes as they are written

`Written` has one constructor for each form in which an attribute is written, `Written.text`
prints it, and `Written.expression` says what it stands for. `Proper` asks of a form what it needs
to be one: names of name characters, values without the double quote, balanced arguments.
-/

namespace ComponentTags

open Text

/-- The directives that stand for an attribute. -/
inductive StyleCall where
  | classes
  | styles
  deriving DecidableEq

/-- The name of the directive and of its attribute. -/
def StyleCall.name : StyleCall → Text
  | classes => Shorthand.classDirective
  | styles => Shorthand.styleDirective

def StyleCall.helper : StyleCall → Text
  | classes => Directive.cssClasses
  | styles => Directive.cssStyles

theorem StyleCall.isRun_name (d : StyleCall) : IsRun isWordChar d.name := by
  cases d <;> decide

theorem StyleCall.eq_of_callOpening_eq {d e : StyleCall}
    (h : Shorthand.callOpening d.name = Shorthand.callOpening e.name) : d = e := by
  cases d <;> cases e
  · rfl
  · exact absurd h (by decide)
  · exact absurd h (by decide)
  · rfl

/-- An attribute in one of the forms in which it is written. -/
inductive Written where
  | literal (name value : Text)
  | bound (name value : Text)
  | boundVariable (name : Text)
  | flag (name : Text)
  | call (directive : StyleCall) (arguments : Text)
  | bag (inner : Text)

theorem Token.token?_eq_none {c : Cursor} {a : Char} {rest : Text} (hr : c.rest = a :: rest)
    (ha : isAttributeNameChar a = false) : token? c = none := by
  simp [token?, hr, ha]

theorem Token.token?_of_value? {c : Cursor} {name value rest : Text}
    (hname : IsRun isAttributeNameChar name) (hv : value? rest = some value)
    (hr : c.rest = name ++ '=' :: rest) :
    token? c = some (⟨name, some value⟩, name.length + 1 + value.length) := by
  have ht : c.rest.takeWhile isAttributeNameChar = name := by
    rw [hr]
    exact takeWhile_append hname.2 (stops_cons.2 (by decide))
  have hd : c.rest.drop name.length = '=' :: rest := by rw [hr, List.drop_left]
  simp only [token?, ht, hname.1, if_false, hd, hv]

theorem Token.value?_quoted {value v : Text} (hq : '"' ∉ value)
    (hv : value = [] → Stops isBareChar v) :
    value? ('"' :: (value ++ ['"']) ++ v) = some ('"' :: value ++ ['"']) := by
  have hinner : (value ++ ['"'] ++ v).takeWhile (· != '"') = value := by
    rw [List.append_assoc]
    exact takeWhile_ne_append hq
  by_cases hn : value = []
  · -- Quotes with nothing between them are read as a bare value.
    subst hn
    have hbare : ('"' :: '"' :: v).takeWhile isBareChar = ['"', '"'] :=
      takeWhile_append (u := ['"', '"']) (forall_mem_of_all (by decide)) (hv rfl)
    simp [value?, quotedValue?, bareValue?, hbare]
  · simp only [value?, quotedValue?, List.cons_append, hinner]
    simp [hn]

namespace Written

/-- An equals sign and a value in double quotes. -/
def quotedValue (value : Text) : Text :=
  '=' :: '"' :: (value ++ ['"'])

def text : Written → Text
  | literal name value => name ++ quotedValue value
  | bound name value => ':' :: (name ++ quotedValue value)
  | boundVariable name => ':' :: '$' :: name
  | flag name => name
  | call directive arguments => '@' :: directive.name ++ arguments
  | bag inner => '{' :: '{' :: ([' '] ++ Shorthand.bagName ++ (inner ++ [' ']) ++ ['}', '}'])

/-- The name that the attribute gives a value to. -/
def name : Written → Text
  | literal name _ => name
  | bound name _ => name
  | boundVariable name => name
  | flag name => name
  | call directive _ => directive.name
  | bag _ => "attributes".toList

/-- The expression that the attribute stands for. -/
def expression : Written → Text
  | literal _ value => ['\x27'] ++ replaceChar '\x27' ['\\', '\x27'] value ++ ['\x27']
  | bound _ value => value
  | boundVariable name => '$' :: name
  | flag _ => trueValue
  | call directive arguments => directive.helper ++ replaceChar '"' ['\x27'] arguments
  | bag inner => Shorthand.bagName ++ inner

def isLiteral : Written → Bool
  | literal _ _ => true
  | _ => false

/-- The characters of the name of a written attribute: word characters, full stop and hyphen. -/
def isPlainNameChar (x : Char) : Bool :=
  isWordChar x || x == '.' || x == '-'

/-- The attribute has the form that its constructor says. -/
def Proper : Written → Prop
  | literal name value => IsRun isPlainNameChar name ∧ '"' ∉ value
  | bound name value => IsRun isPlainNameChar name ∧ '"' ∉ value
  | boundVariable name => IsRun isWordChar name
  | flag name => IsRun isPlainNameChar name
  | call _ arguments => Group.IsGroup arguments
  | bag inner =>
    '{' ∉ inner ∧ '}' ∉ inner ∧ '"' ∉ inner ∧ ∀ x ∈ inner.getLast?, isBlank x = false

instance (w : Written) : Decidable w.Proper :=
  match w with
  | literal _ _ => inferInstanceAs (Decidable (_ ∧ _))
  | bound _ _ => inferInstanceAs (Decidable (_ ∧ _))
  | boundVariable name => inferInstanceAs (Decidable (IsRun isWordChar name))
  | flag name => inferInstanceAs (Decidable (IsRun isPlainNameChar name))
  | call _ arguments => inferInstanceAs (Decidable (Group.IsGroup arguments))
  | bag inner =>
    have := Option.decidableForallMem (p := fun x => isBlank x = false) inner.getLast?
    inferInstanceAs (Decidable (_ ∧ _ ∧ _ ∧ _))

variable {w : Written} {x : Char} {n : Text}

/-! ## Names -/

theorem isAttributeNameChar_of_isPlainNameChar (h : isPlainNameChar x = true) :
    isAttributeNameChar x = true := by
  simp only [isPlainNameChar, Bool.or_eq_true] at h
  rcases h with (h | h) | h <;> simp [isAttributeNameChar, isTagNameChar, h]

/-- A name has none of the characters that divide attributes or begin other forms. -/
theorem not_mem_of_isRun {p : Char → Bool} (hn : IsRun p n) (hx : p x = false) : x ∉ n := by
  intro h
  have := hn.2 x h
  simp [hx] at this

theorem isRun_attributeName (hn : IsRun isPlainNameChar n) : IsRun isAttributeNameChar n :=
  ⟨hn.1, fun x hx => isAttributeNameChar_of_isPlainNameChar (hn.2 x hx)⟩

theorem isRun_colon (hn : IsRun isPlainNameChar n) : IsRun isAttributeNameChar (':' :: n) := by
  refine ⟨by simp, fun x hx => ?_⟩
  rcases List.mem_cons.1 hx with rfl | hx
  · decide
  · exact isAttributeNameChar_of_isPlainNameChar (hn.2 x hx)

theorem isRun_bindMark (hn : IsRun isPlainNameChar n) :
    IsRun isAttributeNameChar (Shorthand.bindMark ++ n) := by
  refine ⟨by simp [hn.1], ?_⟩
  rw [List.forall_mem_append]
  exact ⟨forall_mem_of_all (by decide), (isRun_attributeName hn).2⟩

/-- A plain name with spaces and a colon before it and an equals sign behind it is a binding. -/
theorem binding?_of_isRun {c : Cursor} {spaces start rest : Text} (hs : IsRun isSpace spaces)
    (hn : IsRun isPlainNameChar n) (hstart : start = spaces ++ ':' :: (n ++ ['=']))
    (hr : c.rest = start ++ rest) : Shorthand.binding? c = some (n, start.length) := by
  refine Shorthand.binding?_eq_some_iff.2 ⟨spaces, rest, by simp [hr, hstart], hs.2, Or.inl hs.1,
    isRun_attributeName hn, ?_, ?_⟩
  · obtain ⟨a, n, rfl, ha⟩ := hn.exists_cons
    intro h
    obtain rfl : a = ':' := by simpa using h
    exact absurd ha (by decide)
  · simp only [hstart, List.length_append, List.length_cons, List.length_nil]
    omega

theorem isPlainNameChar_of_isWordChar (h : isWordChar x = true) : isPlainNameChar x = true := by
  simp [isPlainNameChar, h]

theorem isBlank_of_isPlainNameChar (h : isPlainNameChar x = true) : isBlank x = false :=
  isBlank_of_isAttributeNameChar (isAttributeNameChar_of_isPlainNameChar h)

theorem isBlank_of_isWordChar (h : isWordChar x = true) : isBlank x = false :=
  isBlank_of_isPlainNameChar (isPlainNameChar_of_isWordChar h)

theorem isSpace_of_isPlainNameChar (h : isPlainNameChar x = true) : isSpace x = false :=
  isSpace_of_not_isBlank (isBlank_of_isPlainNameChar h)

/-! ## The ends of a text -/

theorem text_ne_nil (hw : w.Proper) : w.text ≠ [] := by
  cases w with
  | literal name value => simp [text, hw.1.1]
  | bound name value => simp [text]
  | boundVariable name => simp [text]
  | flag name => exact hw.1
  | call directive arguments => simp [text]
  | bag inner => simp [text]

theorem isBlank_getLast_text (hw : w.Proper) : ∀ x ∈ w.text.getLast?, isBlank x = false := by
  have hname : ∀ {n : Text} {p : Char → Bool}, (∀ x, p x = true → isBlank x = false) →
      IsRun p n → ∀ x ∈ n.getLast?, isBlank x = false :=
    fun hp hn x hx => hp x (hn.2 x (List.mem_of_getLast? hx))
  intro x hx
  cases w with
  | literal name value =>
    obtain rfl : '"' = x := by
      simpa [text, quotedValue, List.getLast?_cons, List.getLast?_append] using hx
    decide
  | bound name value =>
    obtain rfl : '"' = x := by
      simpa [text, quotedValue, List.getLast?_cons, List.getLast?_append] using hx
    decide
  | boundVariable name =>
    have hl : (text (boundVariable name)).getLast? = name.getLast? := by
      rw [text, List.getLast?_cons_cons, List.getLast?_cons_of_ne_nil hw.1]
    rw [hl] at hx
    exact hname (fun x h => isBlank_of_isPlainNameChar (isPlainNameChar_of_isWordChar h)) hw x hx
  | flag name => exact hname (fun x h => isBlank_of_isPlainNameChar h) hw x hx
  | call directive arguments =>
    obtain ⟨inner, rfl⟩ := Group.IsGroup.exists_eq hw
    obtain rfl : ')' = x := by simpa [text, List.getLast?_cons, List.getLast?_append] using hx
    decide
  | bag inner =>
    obtain rfl : '}' = x := by simpa [text, List.getLast?_cons, List.getLast?_append] using hx
    decide

/-- Only two forms begin with a colon. -/
theorem eq_of_text_eq_colon {r : Text} (hw : w.Proper) (h : w.text = ':' :: r) :
    (∃ name value, w = bound name value ∧ r = name ++ quotedValue value) ∨
      ∃ name, w = boundVariable name ∧ r = '$' :: name := by
  have hname : ∀ {n t : Text}, IsRun isPlainNameChar n → n ++ t ≠ ':' :: r := by
    intro n t hn h
    obtain ⟨a, n, rfl, ha⟩ := hn.exists_cons
    obtain ⟨rfl, -⟩ := List.cons.inj h
    exact absurd ha (by decide)
  cases w with
  | literal name value => exact absurd h (hname hw.1)
  | bound name value => exact Or.inl ⟨name, value, rfl, (List.cons.inj h).2.symm⟩
  | boundVariable name => exact Or.inr ⟨name, rfl, (List.cons.inj h).2.symm⟩
  | flag name => exact absurd (by simpa [text] using h) (hname (t := []) hw)
  | call directive arguments => exact absurd (List.cons.inj h).1 (by decide)
  | bag inner => exact absurd (List.cons.inj h).1 (by decide)

/-! ## The marks in a text -/

/-- What begins an echo or the call of a directive. -/
def marks : List Text :=
  [['{', '{'], ['{', '!', '!'], "@class(".toList, "@style(".toList]

/-- No mark stands in the text, and no colon behind a space. -/
structure Unmarked (t : Text) : Prop where
  no_mark : ∀ m ∈ marks, ¬ m <:+: t
  no_colon : ∀ x, isSpace x = true → ¬ [x, ':'] <:+: t

/-- The values of the attribute are unmarked, and a literal holds no code. -/
def IsUnmarked : Written → Prop
  | literal _ value => Unmarked value ∧ ¬ "<?".toList <:+: value ∧ ¬ "; ?>".toList <:+: value
  | bound _ value => Unmarked value
  | call _ arguments => Unmarked arguments
  | bag inner => Unmarked inner
  | _ => True

theorem unmarked_iff {t : Text} :
    Unmarked t ↔ (∀ m ∈ marks, ¬ m <:+: t) ∧
      ∀ x ∈ t, ¬ (isSpace x = true ∧ [x, ':'] <:+: t) := by
  constructor
  · exact fun h => ⟨h.no_mark, fun x _ hx => h.no_colon x hx.1 hx.2⟩
  · rintro ⟨h₁, h₂⟩
    exact ⟨h₁, fun x hx h => h₂ x (h.subset (by simp)) ⟨hx, h⟩⟩

instance (t : Text) : Decidable (Unmarked t) :=
  have := List.decidableBAll (fun x => ¬ (isSpace x = true ∧ [x, ':'] <:+: t)) t
  decidable_of_iff _ unmarked_iff.symm

instance (w : Written) : Decidable w.IsUnmarked :=
  match w with
  | literal _ _ => inferInstanceAs (Decidable (_ ∧ _ ∧ _))
  | bound _ value => inferInstanceAs (Decidable (Unmarked value))
  | call _ arguments => inferInstanceAs (Decidable (Unmarked arguments))
  | bag inner => inferInstanceAs (Decidable (Unmarked inner))
  | boundVariable _ => isTrue trivial
  | flag _ => isTrue trivial

/-- The mark that the form itself begins with. -/
def ownMark? : Written → Option Text
  | call directive _ => some (Shorthand.callOpening directive.name)
  | bag _ => some ['{', '{']
  | _ => none

variable {m t u : Text}

theorem exists_cons_of_mem_marks (hm : m ∈ marks) :
    ∃ a m', m = a :: m' ∧ (a = '{' ∨ a = '@') ∧
      ∀ x ∈ m, x ≠ '"' ∧ x ≠ '\x27' ∧ isSpace x = false := by
  simp only [marks, List.mem_cons, List.not_mem_nil, or_false] at hm
  rcases hm with rfl | rfl | rfl | rfl <;>
    exact ⟨_, _, rfl, by decide, forall_mem_of_all (by decide)⟩

theorem Unmarked.append (hu : ∀ x ∈ u, x ≠ '{' ∧ x ≠ '@' ∧ isSpace x = false)
    (ht : Unmarked t) : Unmarked (u ++ t) := by
  constructor
  · intro m hm
    obtain ⟨a, m', rfl, ha, -⟩ := exists_cons_of_mem_marks hm
    rw [infix_append_iff_of_not_mem]
    · exact ht.no_mark _ hm
    · intro h
      rcases ha with rfl | rfl
      · exact (hu _ h).1 rfl
      · exact (hu _ h).2.1 rfl
  · intro x hx
    rw [infix_append_iff_of_not_mem]
    · exact ht.no_colon x hx
    · intro h
      have := (hu x h).2.2
      simp [hx] at this

theorem Unmarked.replaceQuotes (ht : Unmarked t) :
    Unmarked (replaceChar '"' ['\x27'] t) := by
  constructor
  · intro m hm h
    obtain ⟨-, -, -, -, hq⟩ := exists_cons_of_mem_marks hm
    refine ht.no_mark m hm (infix_of_infix_replaceChar (by simp) ?_ h)
    intro x hx hm'
    exact (hq x hm').2.1 (by simpa using hx)
  · intro x hx h
    refine ht.no_colon x hx (infix_of_infix_replaceChar (by simp) ?_ h)
    intro y hy hm
    obtain rfl : y = '\x27' := by simpa using hy
    have hx' : '\x27' = x := by simpa using hm
    subst hx'
    simp [isSpace] at hx

theorem unmarked_of_forall (hu : ∀ x ∈ u, x ≠ '{' ∧ x ≠ '@' ∧ isSpace x = false) :
    Unmarked u := by
  have hnil : Unmarked [] := by
    refine ⟨fun m hm => ?_, fun x _ => by simp⟩
    obtain ⟨a, m', rfl, -⟩ := exists_cons_of_mem_marks hm
    simp
  simpa using hnil.append hu

theorem infix_of_infix_quotedValue {a : Char} {name value : Text} (ha : a ∉ name)
    (hq : '"' ∉ a :: m) (he : a ≠ '=') (h : a :: m <:+: name ++ quotedValue value) :
    a :: m <:+: value := by
  have hs : name ++ quotedValue value = (name ++ ['=', '"']) ++ (value ++ '"' :: []) := by
    simp [quotedValue]
  rw [hs, infix_append_iff_of_not_mem, infix_append_cons_iff hq] at h
  · rcases h with h | h
    · exact h
    · simp at h
  · simp only [List.mem_cons, not_or] at hq
    have : a ≠ '"' := fun e => hq.1 e.symm
    simp [ha, he, this]

theorem not_infix_of_not_mem {a : Char} (ha : a ∉ t) : ¬ a :: m <:+: t := by
  intro h
  rw [← List.append_nil t, infix_append_iff_of_not_mem ha] at h
  simp at h

/-- The only mark in an attribute is the one that it begins with. -/
theorem ownMark?_of_infix (hw : w.Proper) (hu : w.IsUnmarked) (hm : m ∈ marks)
    (h : m <:+: w.text) : w.ownMark? = some m := by
  obtain ⟨a, m', rfl, ha, hx⟩ := exists_cons_of_mem_marks hm
  have hq : '"' ∉ a :: m' := fun h' => (hx _ h').1 rfl
  have hs : ' ' ∉ a :: m' := fun h' => by simpa [isSpace] using (hx _ h').2.2
  have hplain : isPlainNameChar a = false := by rcases ha with rfl | rfl <;> decide
  have hword : isWordChar a = false := by rcases ha with rfl | rfl <;> decide
  have hne : a ≠ '=' ∧ a ≠ ':' ∧ a ≠ '$' := by rcases ha with rfl | rfl <;> decide
  cases w with
  | literal name value =>
    have h := infix_of_infix_quotedValue (not_mem_of_isRun hw.1 hplain) hq hne.1 h
    exact absurd h (hu.1.no_mark _ hm)
  | bound name value =>
    have hn : a ∉ ':' :: name := by simp [hne.2.1, not_mem_of_isRun hw.1 hplain]
    have h := infix_of_infix_quotedValue hn hq hne.1 h
    exact absurd h (hu.no_mark _ hm)
  | boundVariable name =>
    refine absurd h (not_infix_of_not_mem ?_)
    simp [text, hne.2.1, hne.2.2, not_mem_of_isRun hw hword]
  | flag name => exact absurd h (not_infix_of_not_mem (not_mem_of_isRun hw hplain))
  | call directive arguments =>
    have hd := not_mem_of_isRun directive.isRun_name hword
    rw [text, List.cons_append, List.infix_cons_iff, infix_append_iff_of_not_mem hd] at h
    rcases h with h | h
    · simp only [marks, List.mem_cons, List.not_mem_nil, or_false] at hm
      rcases hm with hm | hm | hm | hm <;> rw [hm] at h <;> cases directive <;>
        simp [StyleCall.name, Shorthand.classDirective, Shorthand.styleDirective,
          List.cons_prefix_cons] at h <;> rw [hm] <;> rfl
    · exact absurd h (hu.no_mark _ hm)
  | bag inner =>
    have ht : text (bag inner) =
        ['{', '{'] ++ ' ' :: (Shorthand.bagName ++ (inner ++ ' ' :: ['}', '}'])) := by
      simp [text]
    have hb : a ∉ Shorthand.bagName := by rcases ha with rfl | rfl <;> decide
    have hc : a ∉ ['}', '}'] := by rcases ha with rfl | rfl <;> decide
    rw [ht, infix_append_cons_iff hs, infix_append_iff_of_not_mem hb, infix_append_cons_iff hs] at h
    rcases h with h | h | h
    · simp only [marks, List.mem_cons, List.not_mem_nil, or_false] at hm
      rcases hm with hm | hm | hm | hm <;> rw [hm] at h ⊢
      · rfl
      all_goals exact absurd h (by decide)
    · exact absurd h (hu.no_mark _ hm)
    · exact absurd h (not_infix_of_not_mem hc)

theorem bagName_eq : Shorthand.bagName = '$' :: "attributes".toList := by decide

/-- In an attribute no colon stands behind a space. -/
theorem not_space_colon_infix (hw : w.Proper) (hu : w.IsUnmarked) (hx : isSpace x = true) :
    ¬ [x, ':'] <:+: w.text := by
  have hplain : isPlainNameChar x = false := by
    by_cases h : isPlainNameChar x = true
    · have := isSpace_of_isPlainNameChar h
      simp [hx] at this
    · simpa using h
  have hword : isWordChar x = false := by
    by_cases h : isWordChar x = true
    · rw [isPlainNameChar_of_isWordChar h] at hplain
      simp at hplain
    · simpa using h
  have hne : ∀ y, isSpace y = false → x ≠ y := by
    rintro y hy rfl
    simp [hx] at hy
  have hq : '"' ∉ [x, ':'] := by simp [(hne '"' (by decide)).symm]
  intro h
  cases w with
  | literal name value =>
    have h := infix_of_infix_quotedValue (not_mem_of_isRun hw.1 hplain) hq (hne _ (by decide)) h
    exact hu.1.no_colon x hx h
  | bound name value =>
    have hn : x ∉ ':' :: name := by simp [hne ':' (by decide), not_mem_of_isRun hw.1 hplain]
    exact hu.no_colon x hx (infix_of_infix_quotedValue hn hq (hne _ (by decide)) h)
  | boundVariable name =>
    refine not_infix_of_not_mem ?_ h
    simp [text, hne ':' (by decide), hne '$' (by decide), not_mem_of_isRun hw hword]
  | flag name => exact not_infix_of_not_mem (not_mem_of_isRun hw hplain) h
  | call directive arguments =>
    have hd : x ∉ '@' :: directive.name := by
      simp [hne '@' (by decide), not_mem_of_isRun directive.isRun_name hword]
    rw [text, infix_append_iff_of_not_mem hd] at h
    exact hu.no_colon x hx h
  | bag inner =>
    -- The colon is not among the last characters, and not behind the first blank.
    have ht : text (bag inner) =
        ['{', '{'] ++ (' ' :: (Shorthand.bagName ++ inner) ++ [' ', '}', '}']) := by
      simp [text]
    have ho : x ∉ ['{', '{'] := by simp [hne '{' (by decide)]
    have hb : x ∉ Shorthand.bagName := by
      intro hm
      have hs : ∀ y ∈ Shorthand.bagName, isSpace y = false := forall_mem_of_all (by decide)
      exact hne x (hs x hm) rfl
    have hc : ':' ∉ [' ', '}', '}'] := by decide
    rw [ht, infix_append_iff_of_not_mem ho] at h
    have h : [x] ++ [':'] <:+: ' ' :: (Shorthand.bagName ++ inner) :=
      (infix_append_iff_of_not_mem_right hc).1 h
    rcases List.infix_cons_iff.1 h with h | h
    · obtain ⟨-, h⟩ := List.cons_prefix_cons.1 h
      rw [bagName_eq] at h
      exact absurd (List.cons_prefix_cons.1 h).1 (by decide)
    · exact hu.no_colon x hx ((infix_append_iff_of_not_mem hb).1 h)

end Written

end ComponentTags
