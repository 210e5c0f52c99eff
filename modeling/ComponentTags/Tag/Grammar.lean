import ComponentTags.Attribute.Shorthand
import ComponentTags.Attribute.Token
import ComponentTags.Tag.Basic

/-!
# Tag grammars

A tag is a head, which goes up to its name, a list of attributes, each after blanks, and an
ending. A grammar tells which heads, which kinds of attribute and which ending a tag may have.
`attributeEnds` lists every way in which one attribute can end, in the order of preference; each
of them is further on in the same text (`Cursor.Precedes`).
-/

namespace ComponentTags

/-! ## Reading at a cursor -/

namespace Cursor

/-- The cursor behind `mark`, if it stands here. -/
def expect? (c : Cursor) (mark : Text) : Option Cursor :=
  if mark.isPrefixOf c.rest then some (c.advance mark.length) else none

/-- The second cursor is further on in the same text. -/
def Precedes (c d : Cursor) : Prop :=
  d.text = c.text ∧ d.rest.length < c.rest.length

theorem Precedes.trans {a b c : Cursor} (h₁ : a.Precedes b) (h₂ : b.Precedes c) :
    a.Precedes c :=
  ⟨h₂.1.trans h₁.1, Nat.lt_trans h₂.2 h₁.2⟩

theorem Precedes.pos_lt {c d : Cursor} (h : c.Precedes d) : c.pos < d.pos := by
  have h₁ := c.pos_add_length
  have h₂ := d.pos_add_length
  have h₃ := h.2
  rw [h.1] at h₂
  omega

theorem precedes_advance {c : Cursor} {n : Nat} (hr : c.rest ≠ []) (hn : 1 ≤ n) :
    c.Precedes (c.advance n) := by
  refine ⟨text_advance c n, ?_⟩
  have := List.length_pos_iff.2 hr
  rw [rest_advance, List.length_drop]
  omega

theorem text_skipWhile (p : Char → Bool) (c : Cursor) : (c.skipWhile p).text = c.text :=
  text_advance _ _

theorem length_rest_skipWhile_le (p : Char → Bool) (c : Cursor) :
    (c.skipWhile p).rest.length ≤ c.rest.length := by
  rw [skipWhile, rest_advance, List.length_drop]
  omega

end Cursor

namespace Tag

open Text

/-- What the head of a tag says, and where it ends. -/
structure Head where
  name : Text := []
  /-- The name of a slot, written behind a colon. -/
  inlineName : Text := []
  /-- The name of a slot, written as an attribute, with its quotes. -/
  nameAttribute : Text := []
  /-- Whether the name of a slot is an expression. -/
  nameBound : Bool := false
  stop : Cursor

/-- How a kind of tag is recognised. -/
structure Grammar where
  kind : Kind
  /-- A quick test that every head passes. -/
  mayBegin : Cursor → Bool
  /-- The possible heads, in the order of preference. -/
  heads : List (Cursor → Option Head)
  /-- The end of a tag. -/
  ending : Cursor → Option Cursor
  /-- Whether `@class(...)`, `@style(...)` and the attribute bag are attributes. -/
  directives : Bool
  /-- Whether `:$name` is an attribute. -/
  boundVariables : Bool

/-! ## Attributes -/

/-- Whether a character can stand in an unquoted value inside a tag. -/
def isUnquotedChar (c : Char) : Bool :=
  c != '\x27' && c != '"' && c != '=' && c != '<' && c != '>'

/-- The end of a call whose parentheses close. -/
def callEnds (directive : Text) (c : Cursor) : List Cursor :=
  match Shorthand.call? directive c with
  | some (_, n) => [c.advance n]
  | none => []

/-- The end of an echo of the attribute bag. -/
def bagEnds (c : Cursor) : List Cursor :=
  match Shorthand.bag? c.rest with
  | some (_, n) => [c.advance n]
  | none => []

/-- The end of `:$name`. -/
def variableEnds (c : Cursor) : List Cursor :=
  match c.rest with
  | ':' :: '$' :: rest =>
    let name := rest.takeWhile isWordChar
    if name = [] then [] else [c.advance (name.length + 2)]
  | _ => []

/-- The end of a value between two `quote`s. -/
def quotedEnds (quote : Char) (c : Cursor) : List Cursor :=
  match c.rest with
  | [] => []
  | a :: rest =>
    let inner := rest.takeWhile (· != quote)
    if a = quote ∧ inner.length < rest.length then [c.advance (inner.length + 2)] else []

/-- The ends of an unquoted value, longest first. -/
def unquotedEnds (c : Cursor) : List Cursor :=
  (c.steps (c.rest.takeWhile isUnquotedChar).length).reverse

/-- The ends of an equals sign with a value. -/
def valueEnds (c : Cursor) : List Cursor :=
  match c.expect? ['='] with
  | none => []
  | some value => quotedEnds '"' value ++ quotedEnds '\x27' value ++ unquotedEnds value

/-- The ends of a name, with a value first. -/
def namedEnds (c : Cursor) : List Cursor :=
  let name := c.rest.takeWhile isAttributeNameChar
  if name = [] then [] else valueEnds (c.advance name.length) ++ [c.advance name.length]

/-- Every way in which an attribute that begins here can end. -/
def Grammar.attributeEnds (g : Grammar) (c : Cursor) : List Cursor :=
  (if g.directives then
    callEnds Shorthand.classDirective c ++ callEnds Shorthand.styleDirective c ++ bagEnds c
  else []) ++
  (if g.boundVariables then variableEnds c else []) ++ namedEnds c

theorem precedes_of_mem_callEnds {directive : Text} {c e : Cursor}
    (h : e ∈ callEnds directive c) : c.Precedes e := by
  unfold callEnds Shorthand.call? at h
  split at h
  · next n hc =>
    rw [List.mem_singleton] at h
    subst h
    split at hc
    · next hp =>
      have hr : c.rest ≠ [] := by
        intro hr
        simp [hr, Shorthand.callOpening] at hp
      simp only at hc
      split at hc
      · next m hm =>
        simp only [Option.some.injEq, Prod.mk.injEq] at hc
        exact Cursor.precedes_advance hr (by omega)
      · simp at hc
    · simp at hc
  · simp at h

theorem precedes_of_mem_bagEnds {c e : Cursor} (h : e ∈ bagEnds c) : c.Precedes e := by
  unfold bagEnds at h
  split at h
  · next n hb =>
    rw [List.mem_singleton] at h
    subst h
    unfold Shorthand.bag? at hb
    split at hb
    · next rest hr =>
      simp only at hb
      split at hb
      · split at hb
        · simp only [Option.some.injEq, Prod.mk.injEq] at hb
          exact Cursor.precedes_advance (by simp [hr]) (by omega)
        · simp at hb
      · simp at hb
    · simp at hb
  · simp at h

theorem precedes_of_mem_variableEnds {c e : Cursor} (h : e ∈ variableEnds c) :
    c.Precedes e := by
  unfold variableEnds at h
  split at h
  · next rest hr =>
    simp only at h
    split at h
    · simp at h
    · rw [List.mem_singleton] at h
      subst h
      exact Cursor.precedes_advance (by simp [hr]) (by omega)
  · simp at h

theorem precedes_of_mem_quotedEnds {quote : Char} {c e : Cursor}
    (h : e ∈ quotedEnds quote c) : c.Precedes e := by
  unfold quotedEnds at h
  split at h
  · simp at h
  · next a rest hr =>
    simp only at h
    split at h
    · rw [List.mem_singleton] at h
      subst h
      exact Cursor.precedes_advance (by simp [hr]) (by omega)
    · simp at h

theorem precedes_of_mem_unquotedEnds {c e : Cursor} (h : e ∈ unquotedEnds c) :
    c.Precedes e := by
  rw [unquotedEnds, List.mem_reverse] at h
  obtain ⟨k, h₁, h₂, rfl⟩ := Cursor.mem_steps h
  refine Cursor.precedes_advance (fun hr => ?_) h₁
  rw [hr] at h₂
  simp at h₂
  omega

theorem precedes_of_mem_valueEnds {c e : Cursor} (h : e ∈ valueEnds c) : c.Precedes e := by
  unfold valueEnds Cursor.expect? at h
  split at h
  · simp at h
  · next value hv =>
    split at hv
    · next hp =>
      simp only [Option.some.injEq] at hv
      subst hv
      have hr : c.rest ≠ [] := by
        intro hr
        simp [hr] at hp
      have hs : c.Precedes (c.advance ['='].length) := Cursor.precedes_advance hr (by simp)
      simp only [List.mem_append] at h
      obtain (h | h) | h := h
      · exact hs.trans (precedes_of_mem_quotedEnds h)
      · exact hs.trans (precedes_of_mem_quotedEnds h)
      · exact hs.trans (precedes_of_mem_unquotedEnds h)
    · simp at hv

theorem precedes_of_mem_namedEnds {c e : Cursor} (h : e ∈ namedEnds c) : c.Precedes e := by
  unfold namedEnds at h
  simp only at h
  split at h
  · simp at h
  · next hn =>
    have hr : c.rest ≠ [] := by
      intro hr
      simp [hr] at hn
    have hs : c.Precedes (c.advance (c.rest.takeWhile isAttributeNameChar).length) :=
      Cursor.precedes_advance hr (List.length_pos_iff.2 hn)
    rw [List.mem_append, List.mem_singleton] at h
    obtain h | rfl := h
    · exact hs.trans (precedes_of_mem_valueEnds h)
    · exact hs

/-- An attribute ends further on in the text that it begins in. -/
theorem Grammar.precedes_of_mem_attributeEnds {g : Grammar} {c e : Cursor}
    (h : e ∈ g.attributeEnds c) : c.Precedes e := by
  rw [attributeEnds, List.mem_append, List.mem_append] at h
  obtain (h | h) | h := h
  · split at h
    · simp only [List.mem_append] at h
      obtain (h | h) | h := h
      · exact precedes_of_mem_callEnds h
      · exact precedes_of_mem_callEnds h
      · exact precedes_of_mem_bagEnds h
    · simp at h
  · split at h
    · exact precedes_of_mem_variableEnds h
    · simp at h
  · exact precedes_of_mem_namedEnds h

end Tag

end ComponentTags
