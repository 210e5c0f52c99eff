import ComponentTags.Attribute.Parse
import ComponentTags.Echo
import Mathlib.Algebra.Order.BigOperators.Group.List
import Mathlib.Algebra.Order.Ring.Nat
import Mathlib.Data.List.Induction

/-!
# Which names count as bound

Attributes have two parts: an expression under each key, and the names that count as bound. Values
that count as bound go through the sanitizer in print. This is about when the two parts go
together (`Attributes.Coherent`).

1. A token puts its expression under its key, and a bound one adds its bare name to the bound names
   (`values_addToken`, `mem_bound_addToken`). The last token for a key supplies its value
   (`Token.supplier?`), so both parts are known from the tokens (`get?_ofTokens`,
   `mem_bound_ofTokens`).
2. The bare name is added before two colons at its front become one, and it is never taken away. So
   the parts go together exactly if no bound token has a bare name with two colons at its front,
   and none is overwritten by a literal one (`orderly_of_coherent`, `coherent_of_orderly`).
-/

namespace ComponentTags

open Text

/-! ## What a token says -/

namespace Token

/-- The name without the mark of a bound value. -/
def bareName (k : Token) : Text :=
  (Shorthand.bindMark.isPrefixOf? k.name).getD k.name

/-- Whether the token binds its name: it has the mark of a bound value, or no value. -/
def isBound (k : Token) : Bool :=
  (Shorthand.bindMark.isPrefixOf? k.name).isSome || k.value.isNone

def key (k : Token) : Text :=
  AttributeReader.keyOf k.bareName

/-- The value of a bound token, as it is written. -/
def verbatim (k : Token) : Text :=
  k.value.elim trueValue unquoted

def expression (echo : Text → Text) (k : Token) : Text :=
  if k.isBound then k.verbatim else AttributeReader.literalValue echo k.verbatim

/-- The token that supplies the value under a key: the last one that has this key. -/
def supplier? (tokens : List Token) (key : Text) : Option Token :=
  tokens.reverse.find? fun k => k.key = key

variable {tokens : List Token} {k : Token} {key : Text}

theorem supplier?_append_singleton (tokens : List Token) (k : Token) (key : Text) :
    supplier? (tokens ++ [k]) key = if k.key = key then some k else supplier? tokens key := by
  by_cases h : k.key = key <;> simp [supplier?, h]

theorem supplier?_eq_none_iff : supplier? tokens key = none ↔ ∀ k ∈ tokens, k.key ≠ key := by
  simp [supplier?]

theorem mem_of_supplier? (h : supplier? tokens key = some k) : k ∈ tokens ∧ k.key = key :=
  ⟨List.mem_reverse.1 (List.mem_of_find?_eq_some h), by simpa using List.find?_some h⟩

end Token

/-! ## What the tokens add up to -/

namespace AttributeReader

variable (echo : Text → Text)

theorem addToken_eq (attributes : Attributes) (k : Token) :
    addToken echo attributes k =
      if k.isBound then attributes.putBound k.bareName k.key (k.expression echo)
      else attributes.putLiteral k.key (k.expression echo) := by
  obtain ⟨name, value⟩ := k
  cases hm : Shorthand.bindMark.isPrefixOf? name <;> cases value <;>
    simp [addToken, Token.isBound, Token.key, Token.bareName, Token.expression, Token.verbatim, hm]

theorem values_addToken (attributes : Attributes) (k : Token) :
    (addToken echo attributes k).values = attributes.values.put k.key (k.expression echo) := by
  rw [addToken_eq]
  split <;> rfl

theorem mem_bound_addToken (attributes : Attributes) (k : Token) (name : Text) :
    name ∈ (addToken echo attributes k).bound ↔
      name ∈ attributes.bound ∨ k.isBound = true ∧ k.bareName = name := by
  rw [addToken_eq]
  by_cases hk : k.isBound = true
  · by_cases hb : k.bareName ∈ attributes.bound
    · simp only [hk, if_true, Attributes.putBound, List.contains_iff_mem.2 hb, true_and]
      exact ⟨.inl, fun h => h.elim id fun h => h ▸ hb⟩
    · simp [hk, Attributes.putBound, hb, eq_comm]
  · simp [hk, Attributes.putLiteral]

theorem ofTokens_append_singleton (tokens : List Token) (k : Token) :
    ofTokens echo (tokens ++ [k]) = addToken echo (ofTokens echo tokens) k := by
  simp [ofTokens]

/-- **Values.** The value under a key is that of the last token for it. -/
theorem get?_ofTokens (tokens : List Token) (key : Text) :
    (ofTokens echo tokens).values.get? key =
      (Token.supplier? tokens key).map (Token.expression echo) := by
  induction tokens using List.reverseRecOn with
  | nil => rfl
  | append_singleton tokens k ih =>
    rw [ofTokens_append_singleton, values_addToken, Table.get?_put,
      Token.supplier?_append_singleton, ih]
    by_cases h : k.key = key
    · simp [h]
    · simp [h, Ne.symm h]

/-- **Bound names.** They are the bare names of all bound tokens. -/
theorem mem_bound_ofTokens (tokens : List Token) (name : Text) :
    name ∈ (ofTokens echo tokens).bound ↔
      ∃ k ∈ tokens, k.isBound = true ∧ k.bareName = name := by
  induction tokens using List.reverseRecOn with
  | nil => simp [ofTokens, Attributes.empty]
  | append_singleton tokens k ih =>
    rw [ofTokens_append_singleton, mem_bound_addToken, ih]
    simp [or_and_right, exists_or]

end AttributeReader

/-! ## Coherence -/

/-- The bound names are in accordance with the values: each of them is a key, a key is among them
exactly if its value is supplied by a bound token, and then the value stands as it was written;
under every other key there is a string in apostrophes. -/
structure Attributes.Coherent (echo : Text → Text) (tokens : List Token)
    (attributes : Attributes) : Prop where
  mem_keys : ∀ name ∈ attributes.bound, name ∈ attributes.values.keys
  mem_bound_iff : ∀ key ∈ attributes.values.keys, key ∈ attributes.bound ↔
    ∃ k, Token.supplier? tokens key = some k ∧ k.isBound = true
  verbatim : ∀ key ∈ attributes.bound, ∃ k, Token.supplier? tokens key = some k ∧
    attributes.values.get? key = some k.verbatim
  literal : ∀ key ∈ attributes.values.keys, key ∉ attributes.bound →
    ∃ k, Token.supplier? tokens key = some k ∧ attributes.values.get? key =
      some (['\x27'] ++ AttributeReader.literalBody echo k.verbatim ++ ['\x27'])

/-- No bound token has a bare name with two colons at its front, and what each of them binds is
supplied by a bound token in the end. -/
def Token.Orderly (tokens : List Token) : Prop :=
  ∀ k ∈ tokens, k.isBound = true → ¬ [':', ':'] <+: k.bareName ∧
    ∃ l, Token.supplier? tokens k.bareName = some l ∧ l.isBound = true

namespace AttributeReader

variable {echo : Text → Text} {tokens : List Token}

theorem keyOf_eq_self {name : Text} (h : ¬ [':', ':'] <+: name) : keyOf name = name := by
  unfold keyOf
  split
  · next rest => exact absurd ⟨rest, rfl⟩ h
  · rfl

/-- A key with two colons at its front comes from a longer name with two colons at its front. -/
theorem of_prefix_keyOf {name : Text} (h : [':', ':'] <+: keyOf name) :
    [':', ':'] <+: name ∧ (keyOf name).length < name.length := by
  unfold keyOf at h ⊢
  split at h
  · next rest => exact ⟨⟨rest, rfl⟩, by simp⟩
  · next hno =>
    obtain ⟨rest, rfl⟩ := h
    exact absurd rfl (hno rest)

/-- If every bare name that is bound is the key of a bound token, none has two colons at its front:
there would be longer and longer ones. -/
theorem not_prefix_of_bound
    (h : ∀ k ∈ tokens, k.isBound = true → ∃ l ∈ tokens, l.isBound = true ∧ l.key = k.bareName)
    {k : Token} (hk : k ∈ tokens) (hb : k.isBound = true) : ¬ [':', ':'] <+: k.bareName := by
  intro hcolons
  have hlong : ∀ n, ∃ l ∈ tokens, l.isBound = true ∧ [':', ':'] <+: l.bareName ∧
      n ≤ l.bareName.length := by
    intro n
    induction n with
    | zero => exact ⟨k, hk, hb, hcolons, Nat.zero_le _⟩
    | succ n ih =>
      obtain ⟨l, hl, hlb, hlc, hn⟩ := ih
      obtain ⟨m, hm, hmb, hkey⟩ := h l hl hlb
      rw [← hkey] at hlc hn
      obtain ⟨hmc, hlt⟩ := of_prefix_keyOf hlc
      exact ⟨m, hm, hmb, hmc, Nat.lt_of_le_of_lt hn hlt⟩
  obtain ⟨l, hl, -, -, hn⟩ := hlong ((tokens.map fun l => l.bareName.length).sum + 1)
  have hle := List.le_sum_of_mem (List.mem_map_of_mem (f := fun l => l.bareName.length) hl)
  omega

theorem orderly_of_coherent (h : (ofTokens echo tokens).Coherent echo tokens) :
    Token.Orderly tokens := by
  have hsupplier : ∀ k ∈ tokens, k.isBound = true →
      ∃ l, Token.supplier? tokens k.bareName = some l ∧ l.isBound = true := by
    intro k hk hb
    have hbound := (mem_bound_ofTokens echo tokens k.bareName).2 ⟨k, hk, hb, rfl⟩
    exact (h.mem_bound_iff _ (h.mem_keys _ hbound)).1 hbound
  refine fun k hk hb => ⟨not_prefix_of_bound (fun k hk hb => ?_) hk hb, hsupplier k hk hb⟩
  obtain ⟨l, hl, hlb⟩ := hsupplier k hk hb
  obtain ⟨hmem, hkey⟩ := Token.mem_of_supplier? hl
  exact ⟨l, hmem, hlb, hkey⟩

/-- A key counts as bound if and only if a bound token supplies its value. -/
theorem mem_bound_iff_of_orderly (h : Token.Orderly tokens) (key : Text) :
    key ∈ (ofTokens echo tokens).bound ↔
      ∃ k, Token.supplier? tokens key = some k ∧ k.isBound = true := by
  rw [mem_bound_ofTokens]
  constructor
  · rintro ⟨k, hk, hb, rfl⟩
    exact (h k hk hb).2
  · rintro ⟨k, hk, hb⟩
    obtain ⟨hmem, hkey⟩ := Token.mem_of_supplier? hk
    exact ⟨k, hmem, hb, (keyOf_eq_self (h k hmem hb).1).symm.trans hkey⟩

theorem coherent_of_orderly (h : Token.Orderly tokens) :
    (ofTokens echo tokens).Coherent echo tokens := by
  have hget := get?_ofTokens echo tokens
  refine ⟨fun name hname => ?_, fun key _ => mem_bound_iff_of_orderly h key, fun key hkey => ?_,
    fun key hkey hnot => ?_⟩
  · obtain ⟨k, hk, -⟩ := (mem_bound_iff_of_orderly h name).1 hname
    exact Table.mem_keys_iff.2 ⟨_, by rw [hget, hk]; rfl⟩
  · obtain ⟨k, hk, hb⟩ := (mem_bound_iff_of_orderly h key).1 hkey
    refine ⟨k, hk, ?_⟩
    rw [hget, hk, Option.map_some, Token.expression, if_pos hb]
  · obtain ⟨value, hvalue⟩ := Table.mem_keys_iff.1 hkey
    rw [hget] at hvalue
    obtain ⟨k, hk, -⟩ := Option.map_eq_some_iff.1 hvalue
    have hb : ¬ k.isBound = true := fun hb => hnot ((mem_bound_iff_of_orderly h key).2 ⟨k, hk, hb⟩)
    refine ⟨k, hk, ?_⟩
    rw [hget, hk, Option.map_some, Token.expression, if_neg hb]
    rfl

/-! ## Reading -/

/-- Whether a text is refused: it is not blank and has no tokens, and the reader is strict. -/
def refuses (reader : AttributeReader) (full : Text) : Bool :=
  reader.strict && (Token.all full).isEmpty && !full.all isBlank

theorem read_eq (reader : AttributeReader) (text : Text) :
    reader.read text =
      if reader.refuses (Shorthand.expand text) then
        .error (.malformedAttributes (Shorthand.expand text))
      else .ok (ofTokens reader.echo (Token.all (Shorthand.expand text))) := by
  unfold read refuses
  cases htokens : Token.all (Shorthand.expand text) with
  | nil => simp [htokens, ofTokens]
  | cons k tokens => simp [htokens]

/-- **Bound names and values.** A text is refused or has attributes. Under a key there is the value
of the last token for it, and the bound names are the bare names of all bound tokens. These go
together if and only if no bound token has a bare name with two colons at its front or is
overwritten by a token that is not bound. -/
theorem read_coherent_iff (reader : AttributeReader) (text : Text) :
    (reader.read text = .error (.malformedAttributes (Shorthand.expand text)) ∧
      reader.refuses (Shorthand.expand text) = true) ∨
    ∃ attributes, reader.read text = .ok attributes ∧
      reader.refuses (Shorthand.expand text) = false ∧
      (∀ key, attributes.values.get? key =
        (Token.supplier? (Token.all (Shorthand.expand text)) key).map
          (Token.expression reader.echo)) ∧
      (∀ name, name ∈ attributes.bound ↔
        ∃ k ∈ Token.all (Shorthand.expand text), k.isBound = true ∧ k.bareName = name) ∧
      (attributes.Coherent reader.echo (Token.all (Shorthand.expand text)) ↔
        Token.Orderly (Token.all (Shorthand.expand text))) := by
  rw [read_eq]
  by_cases hrefuses : reader.refuses (Shorthand.expand text) = true
  · exact .inl ⟨if_pos hrefuses, hrefuses⟩
  · exact .inr ⟨_, if_neg hrefuses, by simpa using hrefuses, get?_ofTokens _ _,
      mem_bound_ofTokens _ _, orderly_of_coherent, coherent_of_orderly⟩

/-- Two colons at the front of a name without a value, and a bound value that is overwritten: the
bound name is no key, and a string in apostrophes counts as bound. -/
theorem read_not_coherent :
    (∃ attributes, AttributeReader.read ⟨Echo.compile, false⟩ " ::foo".toList = .ok attributes ∧
      attributes.values.entries = [(":foo".toList, "true".toList)] ∧
      attributes.bound = ["::foo".toList] ∧
      ¬ attributes.Coherent Echo.compile (Token.all (Shorthand.expand " ::foo".toList))) ∧
    (∃ attributes, AttributeReader.read ⟨Echo.compile, false⟩ " :a=\"$x\" a=\"y\"".toList =
        .ok attributes ∧
      attributes.values.entries = [(['a'], "'y'".toList)] ∧
      attributes.bound = [['a']] ∧
      ¬ attributes.Coherent Echo.compile
        (Token.all (Shorthand.expand " :a=\"$x\" a=\"y\"".toList))) := by
  refine ⟨⟨_, read_eq _ _, by decide, by decide, fun h => ?_⟩,
    ⟨_, read_eq _ _, by decide, by decide, fun h => ?_⟩⟩
  · exact absurd (h.mem_keys "::foo".toList (by decide)) (by decide)
  · obtain ⟨k, hk, hb⟩ := (h.mem_bound_iff ['a'] (by decide)).1 (by decide)
    have hliteral : (Token.supplier? (Token.all (Shorthand.expand " :a=\"$x\" a=\"y\"".toList))
        ['a']).map Token.isBound = some false := by decide
    rw [hk, Option.map_some, hb] at hliteral
    simp at hliteral

end AttributeReader

end ComponentTags
