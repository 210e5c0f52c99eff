import ComponentTags.Proofs.Shorthand

/-!
# The syntax of an attribute in a tag

`Attribute` says what an attribute may look like. Its names, words and blanks need not be
maximal. Every end that `attributeEnds` lists is the end of such an attribute
(`reads_attribute_of_mem_attributeEnds`), and an attribute with a delimiter behind it ends at one
of the listed places (`mem_attributeEnds_of_attribute`): where a name or a word is cut short, a
character of the name or word follows, which is no delimiter.
-/

namespace ComponentTags

namespace Cursor

/-- A text with the property stands between the two cursors. -/
def Reads (P : Text → Prop) (c d : Cursor) : Prop :=
  ∃ t rest, P t ∧ c.rest = t ++ rest ∧ d = c.advance t.length

variable {P Q : Text → Prop} {c d e : Cursor}

theorem Reads.imp (h : c.Reads P d) (hPQ : ∀ t, P t → Q t) : c.Reads Q d := by
  obtain ⟨t, rest, ht, hr, hd⟩ := h
  exact ⟨t, rest, hPQ t ht, hr, hd⟩

theorem Reads.append (h₁ : c.Reads P d) (h₂ : d.Reads Q e) :
    c.Reads (fun t => ∃ u v, P u ∧ Q v ∧ t = u ++ v) e := by
  obtain ⟨u, rest, hu, hc, rfl⟩ := h₁
  obtain ⟨v, rest', hv, hd, rfl⟩ := h₂
  rw [rest_advance_append hc] at hd
  subst hd
  refine ⟨u ++ v, rest', ⟨u, v, hu, hv, rfl⟩, by simp [hc], ?_⟩
  rw [advance_advance, List.length_append]

theorem mem_steps_iff {n : Nat} : d ∈ c.steps n ↔ ∃ k, 1 ≤ k ∧ k ≤ n ∧ d = c.advance k := by
  refine ⟨mem_steps, ?_⟩
  induction n generalizing c with
  | zero =>
    rintro ⟨k, h₁, h₂, -⟩
    omega
  | succ n ih =>
    rintro ⟨k, h₁, h₂, rfl⟩
    rw [steps, List.mem_cons]
    obtain _ | _ | k := k
    · omega
    · exact Or.inl rfl
    · exact Or.inr (ih ⟨k + 1, by omega, by omega, rfl⟩)

end Cursor

namespace Tag

open Text

variable {blank : Char → Bool} {g : Grammar} {c d e : Cursor} {a v tail directive : Text}
  {quote x : Char}

/-! ## The syntax -/

/-- A value with its equals sign: in quotes of either kind, or without quotes. -/
inductive IsValue : Text → Prop
  | quoted {quote : Char} {v : Text} (hq : quote = '"' ∨ quote = '\x27') (hv : quote ∉ v) :
      IsValue ('=' :: quote :: v ++ [quote])
  | unquoted {v : Text} (hv : IsRun isUnquotedChar v) : IsValue ('=' :: v)

def IsCall (directive t : Text) : Prop :=
  ∃ arguments, Group.IsGroup arguments ∧ t = '@' :: directive ++ arguments

/-- An echo of the attribute bag, with blanks of the given class before its name. -/
def IsBag (blank : Char → Bool) (t : Text) : Prop :=
  ∃ blanks inner, (∀ x ∈ blanks, blank x = true) ∧ '}' ∉ inner ∧
    t = '{' :: '{' :: (blanks ++ Shorthand.bagName ++ inner ++ ['}', '}'])

/-- The attributes that a grammar knows. -/
inductive Attribute (blank : Char → Bool) (g : Grammar) : Text → Prop
  | name {n : Text} (hn : IsRun isAttributeNameChar n) : Attribute blank g n
  | value {n v : Text} (hn : IsRun isAttributeNameChar n) (hv : IsValue v) :
      Attribute blank g (n ++ v)
  | boundVariable {w : Text} (hg : g.boundVariables = true) (hw : IsRun isWordChar w) :
      Attribute blank g (':' :: '$' :: w)
  | classCall {t : Text} (hg : g.directives = true) (ht : IsCall Shorthand.classDirective t) :
      Attribute blank g t
  | styleCall {t : Text} (hg : g.directives = true) (ht : IsCall Shorthand.styleDirective t) :
      Attribute blank g t
  | bag {t : Text} (hg : g.directives = true) (ht : IsBag blank t) : Attribute blank g t

/-- The characters that may stand behind an attribute. -/
def isDelimiter (x : Char) : Bool :=
  isBlank x || x == '/' || x == '>'

theorem isDelimiter_of_isAttributeNameChar (h : isAttributeNameChar x = true) :
    isDelimiter x = false := by
  have h₁ : x ≠ '/' := by
    rintro rfl
    revert h
    decide
  have h₂ : x ≠ '>' := by
    rintro rfl
    revert h
    decide
  simp [isDelimiter, isBlank_of_isAttributeNameChar h, h₁, h₂]

theorem Attribute.exists_cons (h : Attribute blank g a) :
    ∃ x t, a = x :: t ∧ isDelimiter x = false := by
  cases h with
  | name hn =>
    obtain ⟨x, t, rfl, hx⟩ := hn.exists_cons
    exact ⟨x, t, rfl, isDelimiter_of_isAttributeNameChar hx⟩
  | value hn hv =>
    obtain ⟨x, t, rfl, hx⟩ := hn.exists_cons
    exact ⟨x, _, rfl, isDelimiter_of_isAttributeNameChar hx⟩
  | boundVariable hg hw => exact ⟨':', _, rfl, by decide⟩
  | classCall hg ht =>
    obtain ⟨arguments, -, rfl⟩ := ht
    exact ⟨'@', _, rfl, by decide⟩
  | styleCall hg ht =>
    obtain ⟨arguments, -, rfl⟩ := ht
    exact ⟨'@', _, rfl, by decide⟩
  | bag hg ht =>
    obtain ⟨blanks, inner, -, -, rfl⟩ := ht
    exact ⟨'{', _, rfl, by decide⟩

theorem IsValue.exists_cons (h : IsValue v) : ∃ t, v = '=' :: t := by
  cases h with
  | quoted hq hv => exact ⟨_, rfl⟩
  | unquoted hv => exact ⟨_, rfl⟩

/-! ## The ends of each form -/

theorem mem_quotedEnds_iff :
    e ∈ quotedEnds quote c ↔ c.Reads (fun t => ∃ v, quote ∉ v ∧ t = quote :: v ++ [quote]) e := by
  constructor
  · intro h
    unfold quotedEnds at h
    split at h
    · simp at h
    · next x rest hr =>
      simp only at h
      split at h
      · next hx =>
        obtain ⟨rfl, hl⟩ := hx
        rw [List.mem_singleton] at h
        obtain ⟨tail, h₁, h₂, h₃⟩ := exists_eq_takeWhile_append (· != x) rest
        rcases tail with _ | ⟨y, tail⟩
        · rw [List.append_nil] at h₁
          rw [← h₁] at hl
          omega
        obtain rfl : y = x := by simpa using h₃
        have hm : y ∉ rest.takeWhile (· != y) := fun hm => by simpa using of_mem_takeWhile hm
        refine ⟨y :: rest.takeWhile (· != y) ++ [y], tail, ⟨_, hm, rfl⟩, ?_, ?_⟩
        · rw [hr, List.append_assoc, List.cons_append, List.singleton_append, ← h₁]
        · simp [h]
      · simp at h
  · rintro ⟨_, rest, ⟨v, hv, rfl⟩, hr, rfl⟩
    have hr' : c.rest = quote :: (v ++ quote :: rest) := by simp [hr]
    have ht : (v ++ quote :: rest).takeWhile (· != quote) = v := takeWhile_ne_append hv
    unfold quotedEnds
    simp [hr', ht]

theorem mem_unquotedEnds_iff : e ∈ unquotedEnds c ↔ c.Reads (IsRun isUnquotedChar) e := by
  obtain ⟨rest, h₁, -, -⟩ := exists_eq_takeWhile_append isUnquotedChar c.rest
  rw [unquotedEnds, List.mem_reverse, Cursor.mem_steps_iff]
  constructor
  · rintro ⟨k, hk₁, hk₂, rfl⟩
    have hl : ((c.rest.takeWhile isUnquotedChar).take k).length = k := by
      rw [List.length_take]
      omega
    refine ⟨(c.rest.takeWhile isUnquotedChar).take k,
      (c.rest.takeWhile isUnquotedChar).drop k ++ rest, ⟨?_, fun y hy => ?_⟩, ?_, by rw [hl]⟩
    · intro h₀
      rw [h₀] at hl
      simp at hl
      omega
    · exact of_mem_takeWhile (List.mem_of_mem_take hy)
    · rw [← List.append_assoc, List.take_append_drop, ← h₁]
  · rintro ⟨u, rest', ⟨hu₀, hu⟩, hr, rfl⟩
    refine ⟨u.length, List.length_pos_iff.2 hu₀, ?_, rfl⟩
    rw [hr, List.takeWhile_append_of_pos hu, List.length_append]
    omega

theorem mem_valueEnds_iff : e ∈ valueEnds c ↔ c.Reads IsValue e := by
  constructor
  · intro h
    unfold valueEnds at h
    split at h
    · simp at h
    · next d hd =>
      obtain ⟨⟨rest, hr⟩, rfl⟩ := Cursor.expect?_eq_some_iff.1 hd
      have he : c.Reads (· = ['=']) (c.advance ['='].length) := ⟨_, rest, rfl, hr.symm, rfl⟩
      simp only [List.mem_append, mem_quotedEnds_iff, mem_unquotedEnds_iff] at h
      rcases h with (h | h) | h
      · refine (he.append h).imp ?_
        rintro _ ⟨_, _, rfl, ⟨v, hv, rfl⟩, rfl⟩
        exact .quoted (Or.inl rfl) hv
      · refine (he.append h).imp ?_
        rintro _ ⟨_, _, rfl, ⟨v, hv, rfl⟩, rfl⟩
        exact .quoted (Or.inr rfl) hv
      · refine (he.append h).imp ?_
        rintro _ ⟨_, v, rfl, hv, rfl⟩
        exact .unquoted hv
  · rintro ⟨t, rest, ht, hr, rfl⟩
    obtain ⟨v, rfl⟩ := ht.exists_cons
    have hd : c.expect? ['='] = some (c.advance ['='].length) :=
      Cursor.expect?_append (v := v ++ rest) hr
    have hd' : (c.advance ['='].length).rest = v ++ rest :=
      Cursor.rest_advance_append (u := ['=']) hr
    have ha : c.advance ('=' :: v).length = (c.advance ['='].length).advance v.length := by
      rw [Cursor.advance_advance, List.length_cons, Nat.add_comm]
      rfl
    unfold valueEnds
    rw [hd, ha]
    simp only [List.mem_append, mem_quotedEnds_iff, mem_unquotedEnds_iff]
    cases ht with
    | quoted hq hv =>
      rcases hq with rfl | rfl
      · exact Or.inl (Or.inl ⟨_, rest, ⟨_, hv, rfl⟩, hd', rfl⟩)
      · exact Or.inl (Or.inr ⟨_, rest, ⟨_, hv, rfl⟩, hd', rfl⟩)
    | unquoted hv => exact Or.inr ⟨_, rest, hv, hd', rfl⟩

theorem mem_callEnds_iff : e ∈ callEnds directive c ↔ c.Reads (IsCall directive) e := by
  constructor
  · intro h
    unfold callEnds at h
    split at h
    · next arguments n hc =>
      rw [List.mem_singleton] at h
      obtain ⟨rest, hr, hg, rfl⟩ := Shorthand.call?_eq_some_iff.1 hc
      refine ⟨_, rest, ⟨arguments, hg, rfl⟩, hr, ?_⟩
      rw [h, List.cons_append, List.length_cons, List.length_append]
      congr 1
      omega
    · simp at h
  · rintro ⟨_, rest, ⟨arguments, hg, rfl⟩, hr, rfl⟩
    unfold callEnds
    rw [Shorthand.call?_eq_some_iff.2 ⟨rest, hr, hg, rfl⟩, List.mem_singleton,
      List.cons_append, List.length_cons, List.length_append]
    congr 1
    omega

theorem mem_bagEnds_iff : e ∈ bagEnds c ↔ c.Reads (IsBag isBlank) e := by
  constructor
  · intro h
    unfold bagEnds at h
    split at h
    · next inner n hb =>
      rw [List.mem_singleton] at h
      obtain ⟨blanks, rest, hr, hbl, hi, rfl⟩ := Shorthand.bag?_eq_some_iff.1 hb
      refine ⟨_, rest, ⟨blanks, inner, hbl, hi, rfl⟩, by simp [hr], ?_⟩
      rw [h]
      simp only [List.length_cons, List.length_append, List.length_nil]
    · simp at h
  · rintro ⟨_, rest, ⟨blanks, inner, hbl, hi, rfl⟩, hr, rfl⟩
    unfold bagEnds
    rw [Shorthand.bag?_eq_some_iff.2 ⟨blanks, rest, by simp [hr], hbl, hi, rfl⟩,
      List.mem_singleton]
    simp only [List.length_cons, List.length_append, List.length_nil]

theorem reads_of_mem_variableEnds (h : e ∈ variableEnds c) :
    c.Reads (fun t => ∃ w, IsRun isWordChar w ∧ t = ':' :: '$' :: w) e := by
  unfold variableEnds at h
  split at h
  · next rest hr =>
    simp only at h
    split at h
    · simp at h
    · next hn =>
      rw [List.mem_singleton] at h
      obtain ⟨rest', h₁, -, -⟩ := exists_eq_takeWhile_append isWordChar rest
      refine ⟨_, rest', ⟨_, ⟨hn, fun y hy => of_mem_takeWhile hy⟩, rfl⟩, ?_, ?_⟩
      · rw [hr, List.cons_append, List.cons_append, ← h₁]
      · simp [h]
  · simp at h

theorem mem_variableEnds {w : Text} (hw : IsRun isWordChar w)
    (hr : c.rest = ':' :: '$' :: w ++ tail) (ht : Stops isWordChar tail) :
    c.advance (w.length + 2) ∈ variableEnds c := by
  unfold variableEnds
  simp [hr, takeWhile_append hw.2 ht, hw.1]

theorem reads_of_mem_namedEnds (h : e ∈ namedEnds c) : c.Reads (Attribute blank g) e := by
  unfold namedEnds at h
  simp only at h
  split at h
  · simp at h
  · next hn =>
    obtain ⟨rest, h₁, -, -⟩ := exists_eq_takeWhile_append isAttributeNameChar c.rest
    have hs : c.Reads (IsRun isAttributeNameChar)
        (c.advance (c.rest.takeWhile isAttributeNameChar).length) :=
      ⟨_, rest, ⟨hn, fun y hy => of_mem_takeWhile hy⟩, h₁, rfl⟩
    rw [List.mem_append, List.mem_singleton, mem_valueEnds_iff] at h
    rcases h with h | rfl
    · refine (hs.append h).imp ?_
      rintro _ ⟨n, v, hn, hv, rfl⟩
      exact .value hn hv
    · exact hs.imp fun t ht => .name ht

/-- Behind a name that goes on no further stand the ends of its values and its own end. -/
theorem namedEnds_eq {n rest : Text} (hn : IsRun isAttributeNameChar n)
    (hr : c.rest = n ++ rest) (hs : Stops isAttributeNameChar rest) :
    namedEnds c = valueEnds (c.advance n.length) ++ [c.advance n.length] := by
  simp [namedEnds, hr, takeWhile_append hn.2 hs, hn.1]

/-! ## The ends of an attribute -/

theorem reads_attribute_of_mem_attributeEnds (h : e ∈ g.attributeEnds c) :
    c.Reads (Attribute isBlank g) e := by
  rw [Grammar.attributeEnds, List.mem_append, List.mem_append] at h
  rcases h with (h | h) | h
  · split at h
    · next hg =>
      rw [List.mem_append, List.mem_append, mem_callEnds_iff, mem_callEnds_iff,
        mem_bagEnds_iff] at h
      rcases h with (h | h) | h
      · exact h.imp fun t ht => .classCall hg ht
      · exact h.imp fun t ht => .styleCall hg ht
      · exact h.imp fun t ht => .bag hg ht
    · simp at h
  · split at h
    · next hg =>
      refine (reads_of_mem_variableEnds h).imp ?_
      rintro _ ⟨w, hw, rfl⟩
      exact .boundVariable hg hw
    · simp at h
  · exact reads_of_mem_namedEnds h

theorem stops_of_delimited {p : Char → Bool} (hp : ∀ x, p x = true → isDelimiter x = false)
    (h : ∀ x ∈ tail.head?, isDelimiter x = true) : Stops p tail := by
  intro x hx
  by_contra hpx
  rw [Bool.not_eq_false] at hpx
  have hx' := (hp x hpx).symm.trans (h x hx)
  simp at hx'

theorem mem_attributeEnds_of_attribute (ha : Attribute isBlank g a) (hr : c.rest = a ++ tail)
    (ht : ∀ x ∈ tail.head?, isDelimiter x = true) :
    c.advance a.length ∈ g.attributeEnds c := by
  have hs : Stops isAttributeNameChar tail :=
    stops_of_delimited (fun x => isDelimiter_of_isAttributeNameChar) ht
  rw [Grammar.attributeEnds, List.mem_append, List.mem_append]
  cases ha with
  | name hn =>
    right
    rw [namedEnds_eq hn hr hs]
    simp
  | value hn hv =>
    -- the equals sign ends the name
    right
    obtain ⟨t, ht'⟩ := hv.exists_cons
    rename_i n v
    have hr' : c.rest = n ++ (v ++ tail) := by rw [hr, List.append_assoc]
    have hs' : Stops isAttributeNameChar (v ++ tail) := by
      rw [ht']
      exact stops_cons.2 (by decide)
    rw [namedEnds_eq hn hr' hs', List.mem_append, mem_valueEnds_iff]
    refine Or.inl ⟨v, tail, hv, Cursor.rest_advance_append hr', ?_⟩
    rw [Cursor.advance_advance, List.length_append]
  | boundVariable hg hw =>
    left
    right
    rw [if_pos hg]
    refine mem_variableEnds hw hr (stops_of_delimited (fun x hx => ?_) ht)
    exact isDelimiter_of_isAttributeNameChar
      (isAttributeNameChar_of_isTagNameChar (isTagNameChar_of_isWordChar hx))
  | classCall hg hc =>
    left
    left
    rw [if_pos hg, List.mem_append, List.mem_append, mem_callEnds_iff]
    exact Or.inl (Or.inl ⟨a, tail, hc, hr, rfl⟩)
  | styleCall hg hc =>
    left
    left
    rw [if_pos hg, List.mem_append, List.mem_append, mem_callEnds_iff, mem_callEnds_iff]
    exact Or.inl (Or.inr ⟨a, tail, hc, hr, rfl⟩)
  | bag hg hb =>
    left
    left
    rw [if_pos hg, List.mem_append, mem_bagEnds_iff]
    exact Or.inr ⟨a, tail, hb, hr, rfl⟩

end Tag

end ComponentTags
