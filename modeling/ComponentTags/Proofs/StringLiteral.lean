import ComponentTags.Proofs.RoundTrip

/-!
# What a literal value denotes

A literal value is put between apostrophes, and the result is read as a string: a backslash before
an apostrophe or a backslash stands for that character, any other backslash for itself, and the
first apostrophe without a backslash ends the string (`StringLiteral.contents?`). Only apostrophes
are escaped on the way, and `; ?>` is taken for the end of an echo. So the string denotes the value
exactly if every backslash stands for itself and there is no `; ?>`
(`AttributeReader.denoted?_literalValue_iff`).

1. The string for a value denotes the value if no backslash has a backslash, an apostrophe or the
   closing apostrophe behind it; otherwise it is no string, or denotes less
   (`contents?_escaped_iff`).
2. An apostrophe behind a full stop ends the string, whatever stands before them
   (`exists_contents?_stop`). That is what is written for `; ?>`.
-/

namespace ComponentTags

open Text

/-! ## Strings -/

namespace StringLiteral

/-- What a string denotes, read from behind its opening apostrophe, and what follows its closing
one. -/
def contents? : Text → Option (Text × Text)
  | [] => none
  | '\x27' :: rest => some ([], rest)
  | '\\' :: '\x27' :: rest => (contents? rest).map fun r => ('\x27' :: r.1, r.2)
  | '\\' :: '\\' :: rest => (contents? rest).map fun r => ('\\' :: r.1, r.2)
  | c :: rest => (contents? rest).map fun r => (c :: r.1, r.2)

/-- What a text denotes that is one string from its first character to its last. -/
def denoted? : Text → Option Text
  | '\x27' :: rest =>
    match contents? rest with
    | some (t, []) => some t
    | _ => none
  | _ => none

variable {c : Char} {v t rest : Text}

/-- A character stands for itself, if it is no apostrophe and does not go with the next one. -/
theorem contents?_cons (h₁ : c ≠ '\x27')
    (h₂ : c = '\\' → rest.head? ≠ some '\x27' ∧ rest.head? ≠ some '\\') :
    contents? (c :: rest) = (contents? rest).map fun r => (c :: r.1, r.2) := by
  rw [contents?.eq_def]
  split
  · simp_all
  · simp_all
  · simp_all
  · simp_all
  · next heq =>
    obtain ⟨rfl, rfl⟩ := List.cons.inj heq
    rfl

theorem denoted?_eq_some_iff :
    denoted? ('\x27' :: rest) = some t ↔ contents? rest = some (t, []) := by
  rw [denoted?]
  split
  · next s h => simp [h]
  · next hno =>
    refine iff_of_false (by simp) fun h => hno t h

/-- An apostrophe behind a full stop ends the string at the latest: a backslash before the full stop
stands for itself. -/
theorem exists_contents?_stop (u v : Text) :
    ∃ t w, contents? (u ++ '.' :: '\x27' :: v) = some (t, w ++ v) := by
  fun_induction contents? u with
  | case1 => exact ⟨['.'], [], by simp [contents?]⟩
  | case2 u => exact ⟨[], u ++ ['.', '\x27'], by simp [contents?]⟩
  | case3 u ih =>
    obtain ⟨t, w, h⟩ := ih
    exact ⟨_, w, by simp [contents?, h]; rfl⟩
  | case4 u ih =>
    obtain ⟨t, w, h⟩ := ih
    exact ⟨_, w, by simp [contents?, h]; rfl⟩
  | case5 c u h₁ h₂ h₃ ih =>
    obtain ⟨t, w, h⟩ := ih
    have hhead : c = '\\' → (u ++ '.' :: '\x27' :: v).head? ≠ some '\x27' ∧
        (u ++ '.' :: '\x27' :: v).head? ≠ some '\\' := by
      intro hc
      cases u with
      | nil => simp
      | cons a u => simpa using ⟨fun e => h₂ u hc (by rw [e]), fun e => h₃ u hc (by rw [e])⟩
    exact ⟨c :: t, w, by rw [List.cons_append, contents?_cons h₁ hhead, h]; rfl⟩

/-! ## Escaped values -/

/-- No backslash has a backslash, an apostrophe or nothing behind it. -/
def LoneBackslashes : Text → Prop
  | [] => True
  | c :: v => (c = '\\' → v ≠ [] ∧ v.head? ≠ some '\x27' ∧ v.head? ≠ some '\\') ∧
      LoneBackslashes v

instance decidableLoneBackslashes : (v : Text) → Decidable (LoneBackslashes v)
  | [] => isTrue trivial
  | c :: v =>
    have := decidableLoneBackslashes v
    inferInstanceAs (Decidable ((c = '\\' → v ≠ [] ∧ v.head? ≠ some '\x27' ∧
      v.head? ≠ some '\\') ∧ LoneBackslashes v))

/-- The value with a backslash before every apostrophe. -/
def escaped (v : Text) : Text :=
  replaceChar '\x27' ['\\', '\x27'] v

theorem escaped_cons (h : c ≠ '\x27') (v : Text) : escaped (c :: v) = c :: escaped v := by
  rw [escaped, replaceChar_cons, if_neg h]
  rfl

/-- What the string for a backslash and a value denotes depends on the first character of the
value. -/
theorem contents?_escaped_backslash (v : Text) :
    contents? (escaped ('\\' :: v) ++ ['\x27']) =
      match v with
      | [] => none
      | '\x27' :: v => some (['\\'], escaped v ++ ['\x27'])
      | '\\' :: v => (contents? (escaped v ++ ['\x27'])).map fun r => ('\\' :: r.1, r.2)
      | v => (contents? (escaped v ++ ['\x27'])).map fun r => ('\\' :: r.1, r.2) := by
  rw [escaped_cons (by decide)]
  split
  · rfl
  · rfl
  · next v =>
    rw [escaped_cons (by decide)]
    rfl
  · next hnil hq hb =>
    cases v with
    | nil => exact absurd rfl hnil
    | cons a v =>
      have ha : a ≠ '\x27' := fun e => hq v (by rw [e])
      have ha' : a ≠ '\\' := fun e => hb v (by rw [e])
      rw [escaped_cons ha, List.cons_append, contents?_cons (by decide)]
      simp [ha, ha']

/-- The string for a value denotes no more characters than the value has. -/
theorem length_le_of_contents? (h : contents? (escaped v ++ ['\x27']) = some (t, rest)) :
    t.length ≤ v.length := by
  induction hn : v.length using Nat.strongRecOn generalizing v t with
  | ind n ih =>
    have hstep : ∀ {c : Char} {w : Text}, w.length < n →
        ((contents? (escaped w ++ ['\x27'])).map fun r => (c :: r.1, r.2)) = some (t, rest) →
        t.length ≤ w.length + 1 := by
      intro c w hw hmap
      obtain ⟨⟨s, _⟩, hs, he⟩ := Option.map_eq_some_iff.1 hmap
      obtain ⟨rfl, rfl⟩ := Prod.mk.inj he
      have := ih w.length hw hs rfl
      simpa using this
    cases v with
    | nil =>
      obtain ⟨rfl, -⟩ : [] = t ∧ [] = rest := by simpa [escaped, replaceChar, contents?] using h
      simp
    | cons c v =>
      rw [List.length_cons] at hn
      by_cases hq : c = '\x27'
      · subst hq
        have := hstep (by omega) h
        omega
      by_cases hb : c = '\\'
      · subst hb
        rw [contents?_escaped_backslash] at h
        split at h
        · simp at h
        · obtain ⟨rfl, -⟩ := Prod.mk.inj (Option.some.inj h)
          simp at hn ⊢
          omega
        · have := hstep (by simp at hn; omega) h
          simp at hn
          omega
        · have := hstep (by omega) h
          omega
      · rw [escaped_cons hq, List.cons_append, contents?_cons hq fun e => absurd e hb] at h
        have := hstep (by omega) h
        omega

/-- The string for a value denotes the value if and only if every backslash stands for itself. -/
theorem contents?_escaped_iff :
    contents? (escaped v ++ ['\x27']) = some (v, []) ↔ LoneBackslashes v := by
  induction v with
  | nil => simp [escaped, replaceChar, contents?, LoneBackslashes]
  | cons c v ih =>
    have hmap : ∀ {o : Option (Text × Text)},
        (o.map fun r => (c :: r.1, r.2)) = some (c :: v, []) ↔ o = some (v, []) := by
      intro o
      cases o <;> simp [Prod.ext_iff]
    by_cases hq : c = '\x27'
    · subst hq
      have hread : contents? (escaped ('\x27' :: v) ++ ['\x27']) =
          (contents? (escaped v ++ ['\x27'])).map fun r => ('\x27' :: r.1, r.2) := rfl
      rw [hread, hmap, ih]
      simp [LoneBackslashes]
    by_cases hb : c = '\\'
    · subst hb
      rw [contents?_escaped_backslash, LoneBackslashes, ← ih]
      split
      · simp
      · simp
      · next v =>
        -- two backslashes denote one, and so the string denotes less
        rw [hmap]
        simp only [List.head?_cons, ne_eq, not_true_eq_false, and_false, false_and, imp_false,
          iff_false]
        intro h
        have := length_le_of_contents? h
        rw [List.length_cons] at this
        omega
      · next hnil hq hb =>
        have hlone : v ≠ [] ∧ v.head? ≠ some '\x27' ∧ v.head? ≠ some '\\' := by
          cases v with
          | nil => exact absurd rfl hnil
          | cons a v => simpa using ⟨fun e => hq v (by rw [e]), fun e => hb v (by rw [e])⟩
        rw [hmap]
        exact ⟨fun h => ⟨fun _ => hlone, h⟩, fun h => h.2⟩
    · rw [escaped_cons hq, List.cons_append, contents?_cons hq fun e => absurd e hb, hmap, ih]
      simp [LoneBackslashes, hb]

end StringLiteral

/-! ## Literal values -/

/-- What is exchanged for an occurrence stands in the result. -/
theorem Text.exists_replaceAll_eq {old t : Text} (new : Text) (hold : old ≠ []) (h : old <:+: t) :
    ∃ u v, replaceAll old new t = u ++ (new ++ v) := by
  obtain ⟨u, v, hu⟩ := h
  have hr : (Cursor.start t).rest = u ++ (old ++ v) := by
    rw [← List.append_assoc]
    exact hu.symm
  have hfound : ¬ (Cursor.start t).Misses (literal old) (Cursor.start t).rest := by
    intro hm
    have hpos := List.length_pos_iff.2 hold
    have hnone := hm u.length (by simp only [hr, List.length_append]; omega)
    simp [literal, Cursor.rest_advance_append hr] at hnone
  obtain ⟨s, a, w, item, n, hs, hm, hh⟩ := Cursor.exists_first_hit hfound
  exact ⟨s, _, Cursor.expand_pieces_first_hit _ hs hm hh⟩

namespace AttributeReader

open StringLiteral

/-- **Literal values.** What is written for a value without echos and code is one string that
denotes the value, if and only if there is no `; ?>` in the value and each of its backslashes stands
for itself. With a `; ?>` the string ends too early, and the rest of the value is no part of it. -/
theorem denoted?_literalValue_iff (v : Text) (hregular : ¬ ['{', '{'] <:+: v)
    (hraw : ¬ ['{', '!', '!'] <:+: v) (hcode : ¬ "<?".toList <:+: v) :
    (denoted? (literalValue Echo.compile v) = some v ↔
      ¬ "; ?>".toList <:+: v ∧ LoneBackslashes v) ∧
    ("; ?>".toList <:+: v → ∃ t a rest,
      contents? (literalBody Echo.compile v ++ ['\x27']) = some (t, a :: rest)) := by
  have hbody := literalBody_eq hregular hraw hcode
  have hend : "; ?>".toList <:+: v → ∃ t a rest,
      contents? (literalBody Echo.compile v ++ ['\x27']) = some (t, a :: rest) := by
    rintro ⟨u, w, rfl⟩
    have hmark : "; ?>".toList <:+:
        replaceChar '\x27' ['\\', '\x27'] (u ++ "; ?>".toList ++ w) := by
      refine ⟨replaceChar '\x27' ['\\', '\x27'] u, replaceChar '\x27' ['\\', '\x27'] w, ?_⟩
      simp [replaceChar]
    obtain ⟨s, r, hs⟩ := exists_replaceAll_eq ['.', '\x27'] (by decide) hmark
    obtain ⟨t, x, ht⟩ := exists_contents?_stop s (r ++ ['\x27'])
    obtain ⟨a, rest, hne⟩ := List.exists_cons_of_ne_nil (show x ++ (r ++ ['\x27']) ≠ [] by simp)
    refine ⟨t, a, rest, ?_⟩
    rw [← hne, ← ht, hbody, hs]
    simp
  refine ⟨?_, hend⟩
  have hread : denoted? (literalValue Echo.compile v) = some v ↔
      contents? (literalBody Echo.compile v ++ ['\x27']) = some (v, []) := denoted?_eq_some_iff
  rw [hread]
  by_cases hs : "; ?>".toList <:+: v
  · obtain ⟨t, a, rest, ht⟩ := hend hs
    rw [ht]
    exact iff_of_false (by simp) fun h => h.1 hs
  · rw [hbody, replaceAll_of_not_infix (not_infix_escaped (by decide) (by decide) hs)]
    exact contents?_escaped_iff.trans ⟨fun h => ⟨hs, h⟩, fun h => h.2⟩

/-- An apostrophe and a backslash that stands for itself. -/
theorem denoted?_literalValue_apostrophe :
    (denoted? (literalValue Echo.compile "it's \\d".toList) = some "it's \\d".toList ∧
      ¬ "; ?>".toList <:+: "it's \\d".toList ∧ LoneBackslashes "it's \\d".toList) ∧
    ("; ?>".toList <:+: "'; ?>".toList ∧ ∃ t a rest,
      contents? (literalBody Echo.compile "'; ?>".toList ++ ['\x27']) = some (t, a :: rest)) := by
  have hlone : ¬ "; ?>".toList <:+: "it's \\d".toList ∧ LoneBackslashes "it's \\d".toList := by
    decide
  have hend : "; ?>".toList <:+: "'; ?>".toList := by decide
  have h₁ := denoted?_literalValue_iff "it's \\d".toList (by decide) (by decide) (by decide)
  have h₂ := denoted?_literalValue_iff "'; ?>".toList (by decide) (by decide) (by decide)
  exact ⟨⟨h₁.1.2 hlone, hlone⟩, hend, h₂.2 hend⟩

/-- A backslash at the end of a value, two in a row, and the end of a statement: no string, a string
for another value, and a string that ends too early. -/
theorem denoted?_literalValue_ne :
    denoted? (literalValue Echo.compile "C:\\".toList) = none ∧
    denoted? (literalValue Echo.compile "\\\\a".toList) = some "\\a".toList ∧
    contents? (literalBody Echo.compile "a; ?>b".toList ++ ['\x27']) =
      some ("a.".toList, "b'".toList) := by
  decide

end AttributeReader

end ComponentTags
